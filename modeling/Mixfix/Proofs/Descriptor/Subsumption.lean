import Mathlib
import Mixfix.Proofs.Binary64.Equality
import Mixfix.Proofs.Descriptor.Agreement
import Mixfix.Proofs.Descriptor.Reading

/-!
# Subsumption is sound

What one descriptor accepts of another one it admits of its values (`admits_of_accepts`). The
induction is on the accepted descriptor, by which acceptance is computed. Each of its parts is
accepted by one member of the other descriptor (`exists_of_anyMember`): a primitive by looser limits
(`Bounds.admits_of_impliedBy`), a value by a primitive that admits it or by a value that is the same.

The last two rest on numbers. A primitive cannot tell equal numbers from each other
(`admitsPrimitive_of_same`), and what is the same as a value is the same as the values that the value
is the same as (`same_eq_of_same`), as long as no number from `2 ^ 53` on is among the descriptors.
-/

set_option autoImplicit false

namespace Mixfix

/-! ## Limits -/

namespace Bound

/-- A lower limit passes on what it allows to every looser one. -/
theorem allowsAbove_of_isBelow {bound other : Bound} {x : Binary64}
    (looser : bound.isBelow other = true) (allowed : other.allowsAbove x = true) :
    bound.allowsAbove x = true := by
  simp only [isBelow, allowsAbove, Bool.or_eq_true, Bool.and_eq_true, Bool.not_eq_true',
    Binary64.eq_iff_place?, Binary64.lt_iff_place?] at looser allowed ⊢
  grind

/-- An upper limit passes on what it allows to every looser one. -/
theorem allowsBelow_of_isAbove {bound other : Bound} {x : Binary64}
    (looser : bound.isAbove other = true) (allowed : other.allowsBelow x = true) :
    bound.allowsBelow x = true := by
  simp only [isAbove, allowsBelow, Bool.or_eq_true, Bool.and_eq_true, Bool.not_eq_true',
    Binary64.eq_iff_place?, Binary64.lt_iff_place?] at looser allowed ⊢
  grind

end Bound

namespace Bounds

theorem all_of_looser {isLooser : Bound → Bound → Bool} {allows : Bound → Bool}
    (passes : ∀ bound other, isLooser bound other = true → allows other = true →
      allows bound = true) {limit other : Option Bound} (looser : looser isLooser limit other = true)
    (allowed : other.all allows = true) : limit.all allows = true := by
  cases limit with
  | none => rfl
  | some bound =>
      cases other with
      | none => cases looser
      | some other => exact passes bound other looser allowed

/-- Limits admit what limits at least as strict admit. -/
theorem admits_of_impliedBy {bounds other : Bounds} {x : Binary64}
    (implied : bounds.impliedBy other = true) (admitted : other.admits x = true) :
    bounds.admits x = true := by
  simp only [impliedBy, admits, Bool.and_eq_true] at implied admitted ⊢
  constructor
  · exact all_of_looser (fun _ _ looser allowed => Bound.allowsAbove_of_isBelow looser allowed)
      implied.1 admitted.1
  · exact all_of_looser (fun _ _ looser allowed => Bound.allowsBelow_of_isAbove looser allowed)
      implied.2 admitted.2

/-- Limits cannot tell equal numbers from each other. -/
theorem admits_eq_of_eq (bounds : Bounds) {x y : Binary64} (same : x.eq y = true) :
    bounds.admits x = bounds.admits y := by
  have place := Binary64.place?_eq_of_eq same
  simp only [admits, Bound.allowsAbove, Bound.allowsBelow, Binary64.lt, Binary64.eq, place]

end Bounds

namespace Descriptor

/-! ## Values -/

/-- A primitive that admits a value of a literal admits all values that are the same. -/
theorem admitsPrimitive_of_same {kind : Kind} {subtype : Option Subtype} {bounds : Bounds}
    {unit value : Value} (isUnit : IsUnit unit)
    (admitted : admitsPrimitive kind subtype bounds unit = true) (same : unit.same value = true) :
    admitsPrimitive kind subtype bounds value = true := by
  cases isUnit with
  | boolean b =>
      cases value with
      | boolean c => cases kind <;> exact admitted
      | _ => cases same
  | integer n =>
      cases value with
      | integer m =>
          obtain rfl : n = m := by simpa [Value.same] using same
          exact admitted
      | float y =>
          have equal : (Binary64.ofInt n.toInt).eq y = true := same
          cases kind with
          | number =>
              have whole := Binary64.isWhole_of_eq_integer (Binary64.eq_symm equal)
              have passes : bounds.admits (Binary64.ofInt n.toInt) = true := admitted
              simp only [admitsPrimitive, admitsNumber, whole, Bool.or_true, Bool.true_and,
                ← bounds.admits_eq_of_eq equal, passes]
          | _ => cases admitted
      | _ => cases same
  | @float x placed =>
      cases value with
      | integer m =>
          have equal : x.eq (Binary64.ofInt m.toInt) = true := same
          cases kind with
          | number =>
              simp only [admitsPrimitive, admitsNumber, Bool.and_eq_true] at admitted ⊢
              exact bounds.admits_eq_of_eq equal ▸ admitted.2
          | _ => cases admitted
      | float y =>
          have equal : x.eq y = true := same
          cases kind with
          | number =>
              simpa only [admitsPrimitive, admitsNumber, Binary64.isWhole_eq_of_eq equal,
                bounds.admits_eq_of_eq equal] using admitted
          | _ => cases admitted
      | _ => cases same
  | string s =>
      cases value with
      | string t =>
          obtain rfl : s = t := by simpa [Value.same] using same
          exact admitted
      | _ => cases same

/-- Exact values that are the same are the same as the same values. -/
theorem same_eq_of_same {unit unit' : Value} (isUnit : IsUnit unit) (isUnit' : IsUnit unit')
    (exact : IsExact (.unit unit)) (exact' : IsExact (.unit unit')) (same : unit.same unit' = true)
    (value : Value) : unit.same value = unit'.same value := by
  cases isUnit with
  | boolean b =>
      cases isUnit' with
      | boolean c =>
          obtain rfl : b = c := by simpa [Value.same] using same
          rfl
      | _ => cases same
  | integer n =>
      cases isUnit' with
      | integer m =>
          obtain rfl : n = m := by simpa [Value.same] using same
          rfl
      | float placed => exact same_integer_congr exact' (Binary64.eq_symm same) value
      | _ => cases same
  | float placed =>
      cases isUnit' with
      | integer m => exact (same_integer_congr exact same value).symm
      | float placed' => exact same_float_congr same value
      | _ => cases same
  | string s =>
      cases isUnit' with
      | string t =>
          obtain rfl : s = t := by simpa [Value.same] using same
          rfl
      | _ => cases same

/-! ## Members -/

mutual
theorem exists_of_anyMember {test : Descriptor → Bool} : (wanted : Descriptor) →
    wanted.anyMember test = true → ∃ part ∈ wanted.parts, test part = true ∧
      ∀ value, part.admits value = true → wanted.admits value = true
  | .union members, passed => by
      rw [anyMember] at passed
      obtain ⟨part, inside, holds, admits⟩ := exists_of_someMember members passed
      refine ⟨part, ?_, holds, fun value admitted => ?_⟩
      · rw [parts]
        exact List.mem_cons_of_mem _ inside
      · rw [Descriptor.admits]
        exact admits value admitted
  | .unknown, passed => ⟨_, self_mem_parts _, passed, fun _ => id⟩
  | .primitive _ _ _, passed => ⟨_, self_mem_parts _, passed, fun _ => id⟩
  | .unit _, passed => ⟨_, self_mem_parts _, passed, fun _ => id⟩
  | .array _ _, passed => ⟨_, self_mem_parts _, passed, fun _ => id⟩
theorem exists_of_someMember {test : Descriptor → Bool} : (members : List Descriptor) →
    someMember test members = true → ∃ part ∈ memberParts members, test part = true ∧
      ∀ value, part.admits value = true → anyAdmits members value = true
  | [], passed => by cases passed
  | member :: members, passed => by
      rw [someMember, Bool.or_eq_true] at passed
      rw [memberParts]
      rcases passed with first | later
      · obtain ⟨part, inside, holds, admits⟩ := exists_of_anyMember member first
        refine ⟨part, List.mem_append_left _ inside, holds, fun value admitted => ?_⟩
        rw [anyAdmits, admits value admitted, Bool.true_or]
      · obtain ⟨part, inside, holds, admits⟩ := exists_of_someMember members later
        refine ⟨part, List.mem_append_right _ inside, holds, fun value admitted => ?_⟩
        rw [anyAdmits, admits value admitted, Bool.or_true]
end

/-! ## Parts -/

mutual
/-- The parts of a part are parts of the descriptor. -/
theorem parts_subset_of_mem {part : Descriptor} : (descriptor : Descriptor) →
    part ∈ descriptor.parts → part.parts ⊆ descriptor.parts
  | .array element length, mem => by
      rw [parts, List.mem_cons] at mem
      rcases mem with rfl | inside
      · exact List.Subset.refl _
      · rw [parts]
        exact List.subset_cons_of_subset _ (parts_subset_of_mem element inside)
  | .union members, mem => by
      rw [parts, List.mem_cons] at mem
      rcases mem with rfl | inside
      · exact List.Subset.refl _
      · rw [parts]
        exact List.subset_cons_of_subset _ (parts_subset_of_mem_members members inside)
  | .unknown, mem => List.mem_singleton.mp mem ▸ List.Subset.refl _
  | .primitive _ _ _, mem => List.mem_singleton.mp mem ▸ List.Subset.refl _
  | .unit _, mem => List.mem_singleton.mp mem ▸ List.Subset.refl _
theorem parts_subset_of_mem_members {part : Descriptor} : (members : List Descriptor) →
    part ∈ memberParts members → part.parts ⊆ memberParts members
  | [], mem => by cases mem
  | member :: members, mem => by
      rw [memberParts, List.mem_append] at mem
      rw [memberParts]
      rcases mem with first | later
      · exact List.subset_append_of_subset_left _ (parts_subset_of_mem member first)
      · exact List.subset_append_of_subset_right _ (parts_subset_of_mem_members members later)
end

theorem WellFormed.part {descriptor part : Descriptor} (wellFormed : WellFormed descriptor)
    (mem : part ∈ descriptor.parts) : WellFormed part := by
  induction wellFormed with
  | unknown => exact List.mem_singleton.mp mem ▸ .unknown
  | primitive refines bounded placed =>
      exact List.mem_singleton.mp mem ▸ .primitive refines bounded placed
  | unit isUnit => exact List.mem_singleton.mp mem ▸ .unit isUnit
  | array inside placed ih =>
      rw [parts, List.mem_cons] at mem
      rcases mem with rfl | deeper
      · exact .array inside placed
      · exact ih deeper
  | union several flat inside ih =>
      rw [parts, List.mem_cons] at mem
      rcases mem with rfl | deeper
      · exact .union several flat inside
      · obtain ⟨member, known, there⟩ := mem_memberParts.mp deeper
        exact ih member known there

/-! ## Descriptors -/

/-- A well-formed descriptor without unknown parts, and whose values are exact. -/
structure IsDefinite (descriptor : Descriptor) : Prop where
  wellFormed : WellFormed descriptor
  known : ∀ part ∈ descriptor.parts, part ≠ .unknown
  exact : ∀ part ∈ descriptor.parts, IsExact part

theorem IsDefinite.part {descriptor part : Descriptor} (definite : IsDefinite descriptor)
    (mem : part ∈ descriptor.parts) : IsDefinite part where
  wellFormed := definite.wellFormed.part mem
  known inner inside := definite.known inner (parts_subset_of_mem descriptor mem inside)
  exact inner inside := definite.exact inner (parts_subset_of_mem descriptor mem inside)

theorem IsDefinite.member {members : List Descriptor} {member : Descriptor}
    (definite : IsDefinite (.union members)) (known : member ∈ members) : IsDefinite member :=
  definite.part (parts_member known (self_mem_parts member))

theorem IsDefinite.element {element : Descriptor} {length : Bounds}
    (definite : IsDefinite (.array element length)) : IsDefinite element :=
  definite.part (by rw [parts]; exact List.mem_cons_of_mem _ (self_mem_parts element))

section Parts

variable {part : Descriptor} {value : Value}

/-- What accepts a primitive admits its values. -/
theorem admits_of_acceptsPrimitive {kind : Kind} {subtype : Option Subtype} {bounds : Bounds}
    (known : part ≠ .unknown) (accepts : acceptsPrimitive kind subtype bounds part = true)
    (admitted : admitsPrimitive kind subtype bounds value = true) : part.admits value = true := by
  cases part with
  | unknown => exact absurd rfl known
  | primitive kind' subtype' bounds' =>
      simp only [acceptsPrimitive, Bool.and_eq_true, beq_iff_eq, Bool.or_eq_true] at accepts
      obtain ⟨⟨rfl, refined⟩, implied⟩ := accepts
      rw [admits]
      cases kind' with
      | number =>
          cases value with
          | integer n => exact Bounds.admits_of_impliedBy implied admitted
          | float x =>
              simp only [admitsPrimitive, admitsNumber, Bool.and_eq_true] at admitted ⊢
              refine ⟨?_, Bounds.admits_of_impliedBy implied admitted.2⟩
              rcases refined with plain | rfl
              · simp [Option.isNone_iff_eq_none.mp plain]
              · exact admitted.1
          | _ => cases admitted
      | string =>
          cases value with
          | string s =>
              simp only [admitsPrimitive, admitsString, Bool.and_eq_true] at admitted ⊢
              refine ⟨?_, Bounds.admits_of_impliedBy implied admitted.2⟩
              rcases refined with plain | rfl
              · simp [Option.isNone_iff_eq_none.mp plain]
              · exact admitted.1
          | _ => cases admitted
      | _ => exact admitted
  | _ => cases accepts

/-- What accepts a value admits the values that are the same. -/
theorem admits_of_acceptsUnit {unit : Value} (definite : IsDefinite part)
    (given : IsDefinite (.unit unit)) (accepts : acceptsUnit unit part = true)
    (same : unit.same value = true) : part.admits value = true := by
  have isUnit : IsUnit unit := by
    cases given.wellFormed with
    | unit isUnit => exact isUnit
  cases part with
  | unknown => exact absurd rfl (definite.known _ (self_mem_parts _))
  | primitive kind subtype bounds =>
      rw [admits]
      exact admitsPrimitive_of_same isUnit accepts same
  | unit expected =>
      have isUnit' : IsUnit expected := by
        cases definite.wellFormed with
        | unit isUnit => exact isUnit
      have equal : expected.same unit = true := accepts
      rw [admits, same_eq_of_same isUnit' isUnit (definite.exact _ (self_mem_parts _))
        (given.exact _ (self_mem_parts _)) equal]
      exact same
  | _ => cases accepts

end Parts

/-- A definite descriptor admits the values of a definite one that it accepts. -/
theorem IsDefinite.admits_of_acceptance {wanted given : Descriptor} (definite : IsDefinite given)
    (definite' : IsDefinite wanted) (accepts : wanted.accepts given = true) {value : Value}
    (admitted : given.admits value = true) : wanted.admits value = true := by
  have wellFormed := definite.wellFormed
  rw [Descriptor.accepts] at accepts
  induction wellFormed generalizing wanted value with
  | unknown => exact absurd rfl (definite.known _ (self_mem_parts _))
  | primitive refines bounded placed =>
      rw [acceptedBy] at accepts
      obtain ⟨part, mem, taken, admits⟩ := exists_of_anyMember wanted accepts
      refine admits value (admits_of_acceptsPrimitive (definite'.known part mem) taken ?_)
      rwa [Descriptor.admits] at admitted
  | unit isUnit =>
      rw [acceptedBy] at accepts
      obtain ⟨part, mem, taken, admits⟩ := exists_of_anyMember wanted accepts
      refine admits value (admits_of_acceptsUnit (definite'.part mem) definite taken ?_)
      rwa [Descriptor.admits] at admitted
  | @array element length inside placed ih =>
      rw [acceptedBy] at accepts
      obtain ⟨part, mem, taken, admits⟩ := exists_of_anyMember wanted accepts
      refine admits value ?_
      cases part with
      | unknown => exact absurd rfl (definite'.known _ mem)
      | array wantedElement wantedLength =>
          cases value with
          | array items =>
              simp only [Bool.and_eq_true] at taken
              simp only [Descriptor.admits, Bool.and_eq_true, List.all_eq_true] at admitted ⊢
              refine ⟨Bounds.admits_of_impliedBy taken.2 admitted.1, fun item known => ?_⟩
              exact ih definite.element (definite'.part mem).element taken.1 (admitted.2 item known)
          | _ => simp [Descriptor.admits] at admitted
      | _ => cases taken
  | @union members several flat inside ih =>
      have known : wanted.isUnknown = false := by
        cases wanted with
        | unknown => exact absurd rfl (definite'.known _ (self_mem_parts _))
        | _ => rfl
      rw [acceptedBy, known, Bool.false_or, allAcceptedBy_iff] at accepts
      rw [Descriptor.admits, anyAdmits_iff] at admitted
      obtain ⟨member, there, admits⟩ := admitted
      exact ih member there (definite.member there) definite' (accepts member there) admits

/-- Of two descriptors that are read from texts, and have no unknown parts and no numbers from
`2 ^ 53` on as values, the one that accepts the other admits every value that the other admits. -/
theorem admits_of_accepts {wantedText givenText : String} {wanted given : Descriptor}
    (wantedRead : parse wantedText = .ok wanted) (givenRead : parse givenText = .ok given)
    (wantedKnown : ∀ part ∈ wanted.parts, part ≠ .unknown)
    (givenKnown : ∀ part ∈ given.parts, part ≠ .unknown)
    (wantedExact : ∀ part ∈ wanted.parts, IsExact part)
    (givenExact : ∀ part ∈ given.parts, IsExact part) (accepts : wanted.accepts given = true)
    (value : Value) (admitted : given.admits value = true) : wanted.admits value = true :=
  IsDefinite.admits_of_acceptance ⟨wellFormed_of_parse givenRead, givenKnown, givenExact⟩
    ⟨wellFormed_of_parse wantedRead, wantedKnown, wantedExact⟩ accepts admitted

theorem admits_of_accepts_items :
    ∃ wanted given, parse "(number >= 1 | string)[] <= 9" = .ok wanted ∧
      parse "2 <= (number.integer > 2.5 | 'x' | 7)[] <= 4" = .ok given ∧
      wanted.accepts given = true ∧
      ∀ value, given.admits value = true → wanted.admits value = true := by
  let wanted : Descriptor :=
    .array (.union [.primitive .number none ⟨some ⟨.ofDecimal false 1 0, true⟩, none⟩, .string])
      ⟨none, some ⟨.ofDecimal false 9 0, true⟩⟩
  let given : Descriptor :=
    .array (.union [.primitive .number (some .integer) ⟨some ⟨.ofDecimal false 25 (-1), false⟩, none⟩,
        .unit (.string "x"), .unit (.integer 7)])
      ⟨some ⟨.ofDecimal false 2 0, true⟩, some ⟨.ofDecimal false 4 0, true⟩⟩
  have wantedRead : parse "(number >= 1 | string)[] <= 9" = .ok wanted := rfl
  have givenRead : parse "2 <= (number.integer > 2.5 | 'x' | 7)[] <= 4" = .ok given := rfl
  have accepts : wanted.accepts given = true := by decide +kernel
  refine ⟨wanted, given, wantedRead, givenRead, accepts, ?_⟩
  refine admits_of_accepts wantedRead givenRead ?_ ?_ ?_ ?_ accepts
  · simp [wanted, parts, memberParts, string, plain]
  · simp [given, parts, memberParts]
  · simp [wanted, parts, memberParts, string, plain, IsExact]
  · simp [given, parts, memberParts, IsExact]

end Descriptor

end Mixfix
