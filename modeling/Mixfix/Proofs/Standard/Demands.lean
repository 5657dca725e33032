import Mixfix.Proofs.Descriptor.Kinds
import Mixfix.Proofs.Standard.Table

/-!
# What operators ask of their operands

Every demand of a standard operator names kinds of values and nothing more, so whether it accepts a
type depends only on the kinds that the members of the type name (`Demand.accepts_iff`). The
sources of a sorted union and the union itself name the same kinds: a demand accepts the union if it
accepts all of its sources (`Demand.accepts_sortedUnion_iff`).
-/

set_option autoImplicit false

namespace Mixfix.Standard

open Parse Descriptor

namespace Demand

/-- The kinds that a demand names. -/
def kinds : Demand → List Kind
  | .anything => []
  | .truth => [.boolean]
  | .number => [.number]
  | .text => [.string]
  | .comparable => [.number, .string]

/-- Whether a demand covers the kind that a member of a type names. -/
def Covers (demand : Demand) (kindName? : Option String) : Prop :=
  ∀ name ∈ kindName?, name ∈ demand.kinds.map Kind.keyword

variable {demand : Demand} {type given : Descriptor}

theorem anyMember_type (asked : type ∈ demand.type?) (test : Descriptor → Bool) :
    type.anyMember test = demand.kinds.any fun kind => (plain kind).anyMember test := by
  cases demand <;> cases asked <;>
    simp [kinds, anyMember, someMember, plain, Descriptor.boolean, Descriptor.number,
      Descriptor.string]

/-- A demand accepts a type that is no union if one of its kinds does. -/
theorem accepts_iff_any (asked : type ∈ demand.type?) (single : given.isUnion = false) :
    type.accepts given = demand.kinds.any fun kind => (plain kind).accepts given := by
  cases given with
  | unknown => cases demand <;> cases asked <;> simp [kinds, accepts, acceptedBy]
  | primitive kind subtype bounds =>
      simp only [accepts, acceptedBy, anyMember_type asked]
  | unit value => simp only [accepts, acceptedBy, anyMember_type asked]
  | array element length => simp only [accepts, acceptedBy, anyMember_type asked]
  | union members => cases single

theorem accepts_single_iff (asked : type ∈ demand.type?) (single : given.isUnion = false) :
    type.accepts given = true ↔ demand.Covers given.kindName? := by
  have named : demand.kinds ≠ [] := by
    cases demand <;> cases asked <;> exact List.cons_ne_nil _ _
  rw [accepts_iff_any asked single, List.any_eq_true]
  cases unnamed : given.kindName? with
  | none =>
      obtain ⟨kind, kinds, same⟩ := List.exists_cons_of_ne_nil named
      refine iff_of_true ⟨kind, by simp [same], ?_⟩ (by simp [Covers])
      exact (plain_accepts_iff single).mpr (.inl unnamed)
  | some name =>
      simp only [Covers, Option.mem_some_iff, forall_eq', List.mem_map]
      refine exists_congr fun kind => and_congr_right fun _ => ?_
      rw [plain_accepts_iff single, unnamed]
      simp [eq_comm]

/-- A demand accepts a type if it covers the kinds that its members name. -/
theorem accepts_iff (asked : type ∈ demand.type?) (wellFormed : WellFormed given) :
    type.accepts given = true ↔ ∀ member ∈ given.members, demand.Covers member.kindName? := by
  have known : type.isUnknown = false := by
    cases demand <;> cases asked <;> rfl
  cases union : given.isUnion with
  | false =>
      rw [members_of_not_isUnion union, accepts_single_iff asked union]
      simp
  | true =>
      cases given with
      | union members =>
          have inside := wellFormed.members
          rw [accepts, acceptedBy, known, Bool.false_or, allAcceptedBy_iff]
          exact forall₂_congr fun member mem => accepts_single_iff asked (inside member mem).1
      | _ => cases union

/-- A demand accepts a sorted union if it accepts all of its sources. -/
theorem accepts_sortedUnion_iff {descriptors : List Descriptor} (asked : type ∈ demand.type?)
    (nonempty : descriptors ≠ []) (wellFormed : ∀ descriptor ∈ descriptors, WellFormed descriptor) :
    type.accepts (sortedUnion descriptors) = true ↔
      ∀ descriptor ∈ descriptors, type.accepts descriptor = true := by
  rw [accepts_iff asked (wellFormed_sortedUnion wellFormed)]
  constructor
  · intro covered descriptor known
    rw [accepts_iff asked (wellFormed descriptor known)]
    intro member inside
    obtain ⟨kept, there, same⟩ := exists_kind_sortedUnion wellFormed known inside
    exact same ▸ covered kept there
  · intro accepted member inside
    obtain ⟨descriptor, known, there⟩ := mem_members_sortedUnion nonempty wellFormed inside
    exact (accepts_iff asked (wellFormed descriptor known)).mp (accepted descriptor known) member
      there

end Demand

/-! ## Demands of candidates -/

/-- The demands on left operands, with the levels of their operators. -/
def demands : List (UInt32 × Demand) := (1, .truth) :: infixes.map fun op => (op.level, op.demand)

theorem Infix.takes_iff (op : Infix) (left : Tree) :
    takes op.production left = true ↔ ∀ type ∈ op.demand.type?, type.accepts left.type = true := by
  have asked : leftConstraint op.production = op.demand.type? := rfl
  rw [takes, asked]
  cases op.demand.type? <;> simp

theorem takes_choice_iff (condition : Tree) :
    takes choice condition = true ↔
      ∀ type ∈ Demand.truth.type?, type.accepts condition.type = true := by
  simp [takes, leftConstraint, choice, Demand.type?]

/-- Whether a candidate takes an expression depends on a demand. -/
theorem exists_demand {c : UInt32 × Production} (mem : c ∈ candidates) :
    ∃ demand, (c.1, demand) ∈ demands ∧
      ∀ left, takes c.2 left = true ↔ ∀ type ∈ demand.type?, type.accepts left.type = true := by
  rcases mem_candidates.mp mem with rfl | ⟨op, known, rfl⟩
  · exact ⟨.truth, List.mem_cons_self, takes_choice_iff⟩
  · exact ⟨op.demand, List.mem_cons_of_mem _ (List.mem_map_of_mem known), op.takes_iff⟩

end Mixfix.Standard
