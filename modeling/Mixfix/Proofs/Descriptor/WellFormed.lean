import Mixfix.Descriptor.Reader

/-!
# Well-formed descriptors

The descriptors that can be read from a text. A union has at least two members and none of them is a
union; a subtype refines its kind; only numbers, strings and arrays are bounded, and no limit is a
NaN; a value that is a descriptor of its own is a text, a number or a truth value.

The union of well-formed descriptors is well-formed (`wellFormed_unionOf`). The parts of a descriptor
are all descriptors inside of it, the members of unions and the elements of arrays among them.
-/

set_option autoImplicit false

namespace Mixfix

/-- No limit is a NaN. -/
def Bounds.IsPlaced (bounds : Bounds) : Prop :=
  (∀ bound ∈ bounds.lower, bound.limit ≠ .nan) ∧ ∀ bound ∈ bounds.upper, bound.limit ≠ .nan

namespace Descriptor

/-- The values that can be descriptors of their own. -/
inductive IsUnit : Value → Prop
  | boolean (b : Bool) : IsUnit (.boolean b)
  | integer (n : Int64) : IsUnit (.integer n)
  | float {x : Binary64} (placed : x ≠ .nan) : IsUnit (.float x)
  | string (s : String) : IsUnit (.string s)

/-- Whether a descriptor is a union. -/
def isUnion : Descriptor → Bool
  | .union _ => true
  | _ => false

/-- The descriptors that can be read from a text. -/
inductive WellFormed : Descriptor → Prop
  | unknown : WellFormed .unknown
  | primitive {kind : Kind} {subtype : Option Subtype} {bounds : Bounds}
      (refines : ∀ refinement ∈ subtype, refinement.kind = kind)
      (bounded : kind.isBounded = true ∨ bounds = .none) (placed : bounds.IsPlaced) :
      WellFormed (.primitive kind subtype bounds)
  | unit {value : Value} (isUnit : IsUnit value) : WellFormed (.unit value)
  | array {element : Descriptor} {length : Bounds} (inside : WellFormed element)
      (placed : length.IsPlaced) : WellFormed (.array element length)
  | union {members : List Descriptor} (several : 2 ≤ members.length)
      (flat : ∀ member ∈ members, member.isUnion = false)
      (inside : ∀ member ∈ members, WellFormed member) : WellFormed (.union members)

theorem isPlaced_none : Bounds.none.IsPlaced := by
  constructor <;> simp [Bounds.none]

theorem wellFormed_plain (kind : Kind) : WellFormed (plain kind) :=
  .primitive (by simp) (.inr rfl) isPlaced_none

theorem wellFormed_ofValue (value : Value) : WellFormed (.ofValue value) := by
  cases value with
  | array items => exact .array .unknown isPlaced_none
  | _ => exact wellFormed_plain _

/-! ## Unions -/

theorem members_of_not_isUnion {descriptor : Descriptor} (single : descriptor.isUnion = false) :
    descriptor.members = [descriptor] := by
  cases descriptor with
  | union members => cases single
  | _ => rfl

/-- The members of a well-formed descriptor are no unions and well-formed. -/
theorem WellFormed.members {descriptor : Descriptor} (wellFormed : WellFormed descriptor) :
    ∀ member ∈ descriptor.members, member.isUnion = false ∧ WellFormed member := by
  cases wellFormed with
  | union several flat inside => exact fun member mem => ⟨flat member mem, inside member mem⟩
  | unknown =>
      rintro member ⟨⟩
      · exact ⟨rfl, .unknown⟩
      · contradiction
  | primitive refines bounded placed =>
      rintro member ⟨⟩
      · exact ⟨rfl, .primitive refines bounded placed⟩
      · contradiction
  | unit isUnit =>
      rintro member ⟨⟩
      · exact ⟨rfl, .unit isUnit⟩
      · contradiction
  | array inside placed =>
      rintro member ⟨⟩
      · exact ⟨rfl, .array inside placed⟩
      · contradiction

theorem WellFormed.members_ne_nil {descriptor : Descriptor} (wellFormed : WellFormed descriptor) :
    descriptor.members ≠ [] := by
  cases wellFormed with
  | union several flat inside =>
      rintro none
      simp only [Descriptor.members] at none
      simp [none] at several
  | _ => exact List.cons_ne_nil _ _

/-- Descriptors that are no unions are their own members. -/
theorem flatMap_members {descriptors : List Descriptor}
    (flat : ∀ descriptor ∈ descriptors, descriptor.isUnion = false) :
    descriptors.flatMap members = descriptors := by
  induction descriptors with
  | nil => rfl
  | cons descriptor descriptors ih =>
      rw [List.flatMap_cons, members_of_not_isUnion (flat descriptor List.mem_cons_self),
        ih fun other mem => flat other (List.mem_cons_of_mem _ mem)]
      rfl

/-- The members of a union of descriptors that are no unions are these descriptors. -/
theorem members_unionOf {descriptors : List Descriptor} (nonempty : descriptors ≠ [])
    (flat : ∀ descriptor ∈ descriptors, descriptor.isUnion = false) :
    (unionOf descriptors).members = descriptors := by
  unfold unionOf
  rw [flatMap_members flat]
  rcases descriptors with _ | ⟨first, _ | ⟨second, rest⟩⟩
  · exact absurd rfl nonempty
  · exact members_of_not_isUnion (flat first List.mem_cons_self)
  · rfl

theorem wellFormed_unionOf {descriptors : List Descriptor}
    (wellFormed : ∀ descriptor ∈ descriptors, WellFormed descriptor) :
    WellFormed (unionOf descriptors) := by
  have opened : ∀ member ∈ descriptors.flatMap members,
      member.isUnion = false ∧ WellFormed member := by
    intro member mem
    obtain ⟨descriptor, known, inside⟩ := List.mem_flatMap.mp mem
    exact (wellFormed descriptor known).members member inside
  unfold unionOf
  split
  · exact .unknown
  · next member same => exact (opened member (by simp [same])).2
  · next _ notEmpty notSingle =>
      have several : 2 ≤ (descriptors.flatMap Descriptor.members).length := by
        rcases shape : descriptors.flatMap Descriptor.members with _ | ⟨first, _ | ⟨second, rest⟩⟩
        · exact absurd shape notEmpty
        · exact absurd shape (notSingle first)
        · simp
      exact .union several (fun member mem => (opened member mem).1)
        fun member mem => (opened member mem).2

/-! ## Parts -/

mutual
/-- A descriptor and all descriptors inside of it. -/
def parts : Descriptor → List Descriptor
  | .array element length => .array element length :: parts element
  | .union members => .union members :: memberParts members
  | descriptor => [descriptor]
/-- All descriptors inside of the members of a union. -/
def memberParts : List Descriptor → List Descriptor
  | [] => []
  | member :: members => parts member ++ memberParts members
end

theorem mem_memberParts {part : Descriptor} {members : List Descriptor} :
    part ∈ memberParts members ↔ ∃ member ∈ members, part ∈ member.parts := by
  induction members with
  | nil => simp [memberParts]
  | cons member members ih => simp [memberParts, ih]

theorem self_mem_parts (descriptor : Descriptor) : descriptor ∈ descriptor.parts := by
  cases descriptor <;> exact List.mem_cons_self

/-- The parts of a member are parts of the descriptor. -/
theorem parts_member {descriptor member : Descriptor} (inside : member ∈ descriptor.members) :
    member.parts ⊆ descriptor.parts := by
  cases descriptor with
  | union members =>
      intro part mem
      rw [parts]
      exact List.mem_cons_of_mem _ (mem_memberParts.mpr ⟨member, inside, mem⟩)
  | _ => exact List.mem_singleton.mp inside ▸ List.Subset.refl _

end Descriptor

end Mixfix
