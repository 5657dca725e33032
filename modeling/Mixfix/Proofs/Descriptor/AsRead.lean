import Mixfix.Proofs.Descriptor.Agreement
import Mixfix.Proofs.Descriptor.Numbers

/-!
# What the text of a descriptor is read as

A whole number is written without a point, so the digits of a number can be those of an integer of 64
bits, and then the integer is read (`asRead`). Its text is the same (`text_asRead`), but it is exact
where a number compares with integers that were rounded. So a number is replaced by another value
exactly if a second integer is rounded to it (`isPinned_iff`), which happens from `2 ^ 53` on only;
without such numbers a descriptor describes the same values as what it is read as (`admits_asRead`).
-/

set_option autoImplicit false

namespace Mixfix.Descriptor

open Binary64 (RoundsTogether)

/-- The integer of 64 bits that has the text of a number, if there is one. -/
def integerOf? (x : Binary64) : Option Int64 :=
  match numberOf? x.limitText.toList with
  | some ⟨_, .integer n⟩ => some n
  | _ => none

/-- The value that the text of a value is read as. -/
def valueAsRead : Value → Value
  | .float x => (integerOf? x).elim (.float x) .integer
  | value => value

mutual
/-- A descriptor with the integers that are read in it. -/
def asRead : Descriptor → Descriptor
  | .unit value => .unit (valueAsRead value)
  | .array element length => .array (asRead element) length
  | .union members => .union (allAsRead members)
  | descriptor => descriptor
/-- Descriptors with the integers that are read in them. -/
def allAsRead : List Descriptor → List Descriptor
  | [] => []
  | member :: members => asRead member :: allAsRead members
end

theorem allAsRead_eq_map (members : List Descriptor) : allAsRead members = members.map asRead := by
  induction members with
  | nil => rfl
  | cons member members ih => rw [allAsRead, ih, List.map_cons]

/-! ## Values -/

theorem integerOf?_eq_some_iff {x : Binary64} {n : Int64} :
    integerOf? x = some n ↔ toString n.toInt = x.limitText := by
  constructor
  · intro found
    unfold integerOf? at found
    split at found
    · next limit m number =>
        cases found
        cases finite : x.isFinite with
        | true =>
            obtain ⟨other, found', stands⟩ := numberOf?_limitText finite
            cases number.symm.trans found'
            exact stands.text
        | false =>
            have unread : numberOf? x.limitText.toList = none := by
              by_cases placed : x = .nan
              · rw [placed]
                rfl
              · rcases Binary64.limitText_of_infinite placed finite with same | same <;>
                  rw [same] <;> rfl
            cases unread.symm.trans number
    · cases found
  · intro shown
    obtain ⟨⟨limit, value⟩, found, rfl⟩ := numberOf?_toString n
    rw [integerOf?, ← shown, found]

/-- What is read for a value. -/
structure IsAsRead (value read : Value) : Prop where
  isUnit : IsUnit read
  text : unitText read = unitText value
  settled : IsSettled (.unit read)

theorem isAsRead_valueAsRead {value : Value} (isUnit : IsUnit value) :
    IsAsRead value (valueAsRead value) := by
  cases isUnit with
  | @float x placed =>
      rw [valueAsRead]
      cases found : integerOf? x with
      | none =>
          refine ⟨.float placed, rfl, fun n shown => ?_⟩
          rw [integerOf?_eq_some_iff.mpr shown] at found
          cases found
      | some n => exact ⟨.integer n, integerOf?_eq_some_iff.mp found, trivial⟩
  | boolean b => exact ⟨.boolean b, rfl, trivial⟩
  | integer n => exact ⟨.integer n, rfl, trivial⟩
  | string s => exact ⟨.string s, rfl, trivial⟩

/-! ## Descriptors -/

variable {descriptor : Descriptor}

theorem isGrouped_asRead (descriptor : Descriptor) :
    descriptor.asRead.isGrouped = descriptor.isGrouped := by
  cases descriptor <;> rfl

theorem isUnion_asRead (descriptor : Descriptor) :
    descriptor.asRead.isUnion = descriptor.isUnion := by
  cases descriptor <;> rfl

/-- A descriptor has the text of what it is read as. -/
theorem text_asRead (wellFormed : WellFormed descriptor) :
    descriptor.asRead.text = descriptor.text := by
  induction wellFormed with
  | unknown => rfl
  | primitive refines bounded placed => rfl
  | unit isUnit => exact (isAsRead_valueAsRead isUnit).text
  | array inside placed ih => rw [asRead, text, text, ih, isGrouped_asRead]
  | union several flat inside ih =>
      have same := List.map_congr_left ih
      rw [asRead, text, text, allAsRead_eq_map, texts_eq_map, texts_eq_map, List.map_map]
      exact congrArg joinMembers same

theorem wellFormed_asRead (wellFormed : WellFormed descriptor) : WellFormed descriptor.asRead := by
  induction wellFormed with
  | unknown => exact .unknown
  | primitive refines bounded placed => exact .primitive refines bounded placed
  | unit isUnit => exact .unit (isAsRead_valueAsRead isUnit).isUnit
  | array inside placed ih => exact .array ih placed
  | union several flat inside ih =>
      rw [asRead, allAsRead_eq_map]
      refine .union (by rwa [List.length_map]) ?_ ?_
      · intro read mem
        obtain ⟨member, known, rfl⟩ := List.mem_map.mp mem
        exact (isUnion_asRead member).trans (flat member known)
      · intro read mem
        obtain ⟨member, known, rfl⟩ := List.mem_map.mp mem
        exact ih member known

/-- What is read would not be read as something else again. -/
theorem isSettled_asRead (wellFormed : WellFormed descriptor) :
    ∀ part ∈ descriptor.asRead.parts, IsSettled part := by
  induction wellFormed with
  | unknown => exact fun part mem => List.mem_singleton.mp mem ▸ trivial
  | primitive refines bounded placed => exact fun part mem => List.mem_singleton.mp mem ▸ trivial
  | unit isUnit =>
      exact fun part mem => List.mem_singleton.mp mem ▸ (isAsRead_valueAsRead isUnit).settled
  | array inside placed ih =>
      intro part mem
      rcases List.mem_cons.mp mem with rfl | deeper
      · trivial
      · exact ih part deeper
  | union several flat inside ih =>
      intro part mem
      rw [asRead, allAsRead_eq_map] at mem
      rcases List.mem_cons.mp mem with rfl | deeper
      · trivial
      · obtain ⟨read, known, there⟩ := mem_memberParts.mp deeper
        obtain ⟨member, inside, rfl⟩ := List.mem_map.mp known
        exact ih member inside part there

/-! ## The same values -/

/-- A descriptor that is not a single number with the text of an integer that is rounded to one number
with another integer. -/
def IsPinned : Descriptor → Prop
  | .unit (.float x) => ∀ n m : Int64, toString n.toInt = x.limitText → ¬ RoundsTogether n m
  | _ => True

theorem IsSettled.isPinned (settled : IsSettled descriptor) : IsPinned descriptor := by
  cases descriptor with
  | unit value =>
      cases value with
      | float x => exact fun n m shown => absurd shown (settled n)
      | _ => trivial
  | _ => trivial

/-- Whether an integer is rounded together with another one shows in the integers next to it. -/
theorem isPinned_float_iff {x : Binary64} : IsPinned (.unit (.float x)) ↔
    ∀ n ∈ integerOf? x, ¬ (RoundsTogether n (n - 1) ∨ RoundsTogether n (n + 1)) := by
  constructor
  · intro pinned n found together
    obtain ⟨m, together⟩ := Binary64.exists_roundsTogether_iff.mpr together
    exact pinned n m (integerOf?_eq_some_iff.mp found) together
  · intro alone n m shown together
    exact alone n (integerOf?_eq_some_iff.mpr shown)
      (Binary64.exists_roundsTogether_iff.mp ⟨m, together⟩)

instance : DecidablePred IsPinned := fun descriptor =>
  match descriptor with
  | .unit (.float x) =>
      -- the integer that is read is looked at, not all integers of 64 bits
      @decidable_of_iff _ _ isPinned_float_iff.symm (Option.decidableForallMem (integerOf? x))
  | .unit .null | .unit .undefined | .unit (.boolean _) | .unit (.integer _) | .unit (.string _)
  | .unit (.array _) | .unit (.object _) | .unknown | .primitive _ _ _ | .array _ _ | .union _ =>
      isTrue trivial

variable {other : Descriptor}

/-- A settled value and a pinned one of its text are the same as the same values. -/
theorem unitsAgree_of_settled (settled : ∀ part ∈ descriptor.parts, IsSettled part)
    (pinned : ∀ part ∈ other.parts, IsPinned part) : UnitsAgree descriptor other := by
  intro value value' mem mem' isUnit isUnit'
  refine same_eq_of_unitText isUnit isUnit' ?_
  rintro n m x (⟨rfl, rfl⟩ | ⟨rfl, rfl⟩) shown equal
  · cases isUnit' with
    | float placed =>
        by_contra differs
        have equal' := Binary64.eq_symm (Binary64.eq_ofInt_of_limitText placed shown)
        exact pinned _ mem' n m shown ⟨differs, Binary64.eq_trans equal' equal⟩
  · exact absurd shown (settled _ mem n)

/-- Without numbers that several integers are rounded to, a descriptor describes the same values as
what it is read as. -/
theorem admits_asRead (wellFormed : WellFormed descriptor)
    (pinned : ∀ part ∈ descriptor.parts, IsPinned part) (value : Value) :
    descriptor.asRead.admits value = descriptor.admits value :=
  admits_eq_of_text (wellFormed_asRead wellFormed) wellFormed
    (unitsAgree_of_settled (isSettled_asRead wellFormed) pinned) (text_asRead wellFormed) value

/-- A single value is pinned exactly if it is the same as the same values as what it is read as. -/
theorem isPinned_iff {value : Value} (isUnit : IsUnit value) :
    IsPinned (.unit value) ↔
      ∀ data, (asRead (.unit value)).admits data = (unit value).admits data := by
  constructor
  · intro pinned
    exact admits_asRead (.unit isUnit) fun part mem => List.mem_singleton.mp mem ▸ pinned
  · intro same
    cases isUnit with
    | @float x placed =>
        rintro n m shown ⟨differs, rounded⟩
        have here := same (.integer m)
        have equal := Binary64.eq_trans (Binary64.eq_ofInt_of_limitText placed shown) rounded
        rw [asRead, valueAsRead, integerOf?_eq_some_iff.mpr shown, Option.elim_some, admits,
          admits] at here
        simp only [Value.same, Value.sameNumber, Value.toFloat?, equal, beq_iff_eq] at here
        exact differs here
    | _ => trivial

end Mixfix.Descriptor
