import Mixfix.Descriptor.Admission
import Mixfix.Proofs.Descriptor.Alike
import Mixfix.Proofs.Descriptor.SortedUnion

/-!
# Kinds of values

A descriptor that is no union and not unknown describes values of one kind only, and names it. The
text of the descriptor determines this kind (`kindName?_eq_of_alike`). A kind alone accepts exactly
the descriptors that name it and the unknown (`plain_accepts_iff`).

`Suits` is what admission says about kinds (`suits_of_admits`): the kind of the value is one that
the descriptor names, or the descriptor does not name them all.
-/

set_option autoImplicit false

namespace Mixfix

namespace Kind

theorem keyword_injective {kind other : Kind} (same : kind.keyword = other.keyword) :
    kind = other := by
  cases kind <;> cases other <;> first | rfl | exact absurd same (by decide)

/-- No kind has the word for arrays. -/
theorem keyword_ne_array (kind : Kind) : kind.keyword ≠ "array" := by
  cases kind <;> decide

end Kind

namespace Descriptor

/-- The word for the kind of the described values, if a descriptor that is no union names one. -/
def kindName? : Descriptor → Option String
  | .primitive kind _ _ => some kind.keyword
  | .unit value => some value.kindName
  | .array _ _ => some "array"
  | _ => none

/-- The text of a descriptor determines its kind. -/
theorem kindName?_eq_of_alike {descriptor other : Descriptor} (alike : Alike descriptor other) :
    descriptor.kindName? = other.kindName? := by
  cases alike with
  | unknown => rfl
  | primitive kind subtype sides => rfl
  | unit kind text => exact congrArg some kind
  | array inside sides => rfl

/-! ## Acceptance by a kind -/

theorem allAcceptedBy_iff {members : List Descriptor} {type : Descriptor} :
    allAcceptedBy members type = true ↔ ∀ member ∈ members, type.accepts member = true := by
  induction members with
  | nil => simp [allAcceptedBy]
  | cons member members ih => simp [allAcceptedBy, ih, accepts]

theorem admitsPrimitive_plain (kind : Kind) (value : Value) :
    admitsPrimitive kind none .none value = true ↔ value.kindName = kind.keyword := by
  cases kind <;> cases value <;>
    simp [admitsPrimitive, admitsNumber, admitsString, Bounds.admits, Bounds.none, Value.kindName,
      Kind.keyword]

/-- A kind alone accepts a descriptor that is no union if the descriptor names the kind or
nothing. -/
theorem plain_accepts_iff {kind : Kind} {descriptor : Descriptor}
    (single : descriptor.isUnion = false) :
    (plain kind).accepts descriptor = true ↔
      descriptor.kindName? = none ∨ descriptor.kindName? = some kind.keyword := by
  cases descriptor with
  | unknown => simp [accepts, acceptedBy, kindName?]
  | primitive kind' subtype bounds =>
      have loose : Bounds.none.impliedBy bounds = true := rfl
      simp only [accepts, acceptedBy, plain, anyMember, acceptsPrimitive, loose, kindName?,
        Option.isNone_none, Bool.true_or, Bool.and_true, beq_iff_eq, reduceCtorEq, false_or,
        Option.some.injEq]
      exact ⟨fun same => same ▸ rfl, fun same => (Kind.keyword_injective same).symm⟩
  | unit value =>
      simp only [accepts, acceptedBy, plain, anyMember, acceptsUnit, admitsPrimitive_plain,
        kindName?, reduceCtorEq, false_or, Option.some.injEq]
  | array element length =>
      simp only [accepts, acceptedBy, plain, anyMember, kindName?, reduceCtorEq, false_or,
        Option.some.injEq, Bool.false_eq_true, false_iff]
      exact (Kind.keyword_ne_array kind).symm
  | union members => cases single

/-! ## Values of a kind -/

/-- Whether the kind of a value is among those that a descriptor names, or some are not named. -/
def Suits (descriptor : Descriptor) (value : Value) : Prop :=
  ∃ member ∈ descriptor.members, ∀ name ∈ member.kindName?, name = value.kindName

theorem kindName_of_same {value other : Value} (same : value.same other = true) :
    value.kindName = other.kindName := by
  cases value <;> cases other <;> first | rfl | simp [Value.same] at same

theorem kindName_of_admitsPrimitive {kind : Kind} {subtype : Option Subtype} {bounds : Bounds}
    {value : Value} (admitted : admitsPrimitive kind subtype bounds value = true) :
    kind.keyword = value.kindName := by
  cases kind <;> cases value <;>
    first | rfl | simp [admitsPrimitive, admitsNumber, admitsString] at admitted

/-- A descriptor that is no union admits values of its kind only. -/
theorem kindName_of_admits {descriptor : Descriptor} {value : Value}
    (single : descriptor.isUnion = false) (admitted : descriptor.admits value = true) :
    ∀ name ∈ descriptor.kindName?, name = value.kindName := by
  cases descriptor with
  | unknown => simp [kindName?]
  | primitive kind subtype bounds =>
      rintro _ ⟨⟩
      exact kindName_of_admitsPrimitive (by simpa [admits] using admitted)
  | unit expected =>
      rintro _ ⟨⟩
      exact kindName_of_same (by simpa [admits] using admitted)
  | array element length =>
      rintro _ ⟨⟩
      cases value with
      | array items => rfl
      | _ => simp [admits] at admitted
  | union members => cases single

theorem anyAdmits_iff {members : List Descriptor} {value : Value} :
    anyAdmits members value = true ↔ ∃ member ∈ members, member.admits value = true := by
  induction members with
  | nil => simp [anyAdmits]
  | cons member members ih => simp [anyAdmits, ih]

/-- A descriptor admits what one of its members admits. -/
theorem admits_iff_members {descriptor : Descriptor} {value : Value} :
    descriptor.admits value = true ↔ ∃ member ∈ descriptor.members, member.admits value = true := by
  cases descriptor with
  | union inside => rw [admits, anyAdmits_iff, members]
  | _ => simp [members]

/-- The kind of an admitted value is one of those that the descriptor names. -/
theorem suits_of_admits {descriptor : Descriptor} {value : Value}
    (wellFormed : WellFormed descriptor) (admitted : descriptor.admits value = true) :
    descriptor.Suits value := by
  obtain ⟨member, known, inside⟩ := admits_iff_members.mp admitted
  exact ⟨member, known, kindName_of_admits (wellFormed.members member known).1 inside⟩

/-! ## Sorted unions -/

section SortedUnion

variable {descriptors : List Descriptor}

/-- A member of a source has a member that is like it in the sorted union. -/
theorem exists_alike_sortedUnion
    (wellFormed : ∀ descriptor ∈ descriptors, WellFormed descriptor)
    {descriptor member : Descriptor} (known : descriptor ∈ descriptors)
    (inside : member ∈ descriptor.members) :
    ∃ kept ∈ (sortedUnion descriptors).members, Alike kept member := by
  obtain ⟨kept, there, same⟩ := exists_member_sortedUnion wellFormed known inside
  obtain ⟨single, formed⟩ := (wellFormed_sortedUnion wellFormed).members kept there
  exact ⟨kept, there,
    alike_of_text formed ((wellFormed descriptor known).members member inside).2 single same⟩

/-- A member of a source has a member of its kind in the sorted union. -/
theorem exists_kind_sortedUnion
    (wellFormed : ∀ descriptor ∈ descriptors, WellFormed descriptor)
    {descriptor member : Descriptor} (known : descriptor ∈ descriptors)
    (inside : member ∈ descriptor.members) :
    ∃ kept ∈ (sortedUnion descriptors).members, kept.kindName? = member.kindName? := by
  obtain ⟨kept, there, alike⟩ := exists_alike_sortedUnion wellFormed known inside
  exact ⟨kept, there, kindName?_eq_of_alike alike⟩

/-- A sorted union suits a value that one of its sources suits. -/
theorem suits_sortedUnion (wellFormed : ∀ descriptor ∈ descriptors, WellFormed descriptor)
    {descriptor : Descriptor} {value : Value} (known : descriptor ∈ descriptors)
    (suits : descriptor.Suits value) : (sortedUnion descriptors).Suits value := by
  obtain ⟨member, inside, kinds⟩ := suits
  obtain ⟨kept, there, same⟩ := exists_kind_sortedUnion wellFormed known inside
  exact ⟨kept, there, same ▸ kinds⟩

end SortedUnion

end Descriptor

end Mixfix
