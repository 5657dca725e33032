import Mixfix.Proofs.Descriptor.Words

/-!
# Legible descriptors

A descriptor is legible if its text is one that a reader can take (`isLegible`). Two things stand in
the way. The words for the infinities are no numbers, so limits and single numbers have to be finite.
And a number at the start of a term is taken for the whole term or for the limit below a range, so a
base that starts with a number, which is an array of a single number, has to stand in a range.

Terms are the members of unions and what stands in parentheses or alone. The element of an array
without parentheses is no term but part of the base around it, and no more is asked of it than of a
base (`hasLegibleBase`).
-/

set_option autoImplicit false

namespace Mixfix

namespace Bounds

/-- Whether all limits are finite. -/
def isFinite (bounds : Bounds) : Bool :=
  bounds.lower.all (·.limit.isFinite) && bounds.upper.all (·.limit.isFinite)

/-- Whether limits are written on both sides of their base. -/
def isRange (bounds : Bounds) : Bool :=
  match bounds.lower, bounds.upper with
  | some lower, some upper => !(lower.same upper && lower.inclusive)
  | _, _ => false

end Bounds

namespace Descriptor

/-- Whether a descriptor is a single number that is written with digits. -/
def isNumeral : Descriptor → Bool
  | .unit (.integer _) => true
  | .unit (.float x) => x.isFinite
  | _ => false

/-- Whether the base of a descriptor starts with a number. -/
def startsWithNumber : Descriptor → Bool
  | .unit (.integer _) => true
  | .unit (.float x) => x.isFinite
  | .array element _ => !element.isGrouped && element.startsWithNumber
  | _ => false

mutual
/-- Whether the base of a descriptor is one that a reader can take. -/
def hasLegibleBase : Descriptor → Bool
  | .unit (.float x) => x.isFinite
  | .array element _ => if element.isGrouped then element.isLegible else element.hasLegibleBase
  | _ => true
/-- Whether the text of a descriptor is one that a reader can take. -/
def isLegible : Descriptor → Bool
  | .primitive _ _ bounds => bounds.isFinite
  | .unit (.float x) => x.isFinite
  | .array element length =>
    length.isFinite &&
      (if element.isGrouped then element.isLegible else element.hasLegibleBase) &&
      (length.isRange || element.isGrouped || !element.startsWithNumber)
  | .union members => allLegible members
  | _ => true
/-- Whether all of several descriptors are legible. -/
def allLegible : List Descriptor → Bool
  | [] => true
  | member :: members => member.isLegible && allLegible members
end

variable {descriptor : Descriptor}

theorem allLegible_iff {members : List Descriptor} :
    allLegible members = true ↔ ∀ member ∈ members, member.isLegible = true := by
  induction members with
  | nil => simp [allLegible]
  | cons member members ih => simp [allLegible, ih]

/-- A descriptor that is no union is legible by its limits, its base, and its being a number or between
limits where it starts with a number. -/
theorem isLegible_iff (single : descriptor.isUnion = false) :
    descriptor.isLegible = true ↔
      descriptor.limits.isFinite = true ∧ descriptor.hasLegibleBase = true ∧
        (descriptor.limits.isRange = true ∨ descriptor.isNumeral = true ∨
          descriptor.startsWithNumber = false) := by
  have unlimited : Bounds.none.isFinite = true := rfl
  cases descriptor with
  | unknown => simp [isLegible, limits, hasLegibleBase, startsWithNumber, unlimited]
  | primitive kind subtype bounds =>
      simp [isLegible, limits, hasLegibleBase, startsWithNumber]
  | unit value =>
      cases value <;>
        simp [isLegible, limits, hasLegibleBase, isNumeral, startsWithNumber, unlimited]
  | array element length =>
      simp only [isLegible, limits, hasLegibleBase, isNumeral, startsWithNumber, Bool.and_eq_true,
        Bool.or_eq_true, Bool.not_eq_true', Bool.and_eq_false_iff, Bool.not_eq_false',
        Bool.false_eq_true, false_or, and_assoc, or_assoc]
  | union members => cases single

end Descriptor

end Mixfix
