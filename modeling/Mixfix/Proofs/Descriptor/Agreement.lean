import Mathlib
import Mixfix.Descriptor.Admission
import Mixfix.Proofs.Binary64.Equality
import Mixfix.Proofs.Descriptor.Kinds

/-!
# Descriptors of one text describe the same

Descriptors of one text admit the same values (`admits_eq_of_text`), if the values inside of them that
have one text are the same as the same values (`UnitsAgree`). Limits of one text are equal numbers, so
they let the same pass. Values of one text are the same value, or an integer and a number equal to
it, and from `2 ^ 53` on a number can be equal to several integers; so units agree where none of them
is such a number (`IsExact`).

So a sorted union admits what its sources admit (`admits_sortedUnion`), although it keeps only one
member of each text.
-/

set_option autoImplicit false

namespace Mixfix

/-! ## Limits -/

/-- A test that depends on the place and on the inclusion of a limit comes out the same for limits of
one text. -/
theorem Bound.all_eq_of_side {limit limit' : Option Bound} (placed : ∀ bound ∈ limit, bound.limit ≠ .nan)
    (placed' : ∀ bound ∈ limit', bound.limit ≠ .nan) (same : limit.map side = limit'.map side)
    {allows : Bound → Bool} (respects : ∀ bound bound' : Bound,
      bound.limit.place? = bound'.limit.place? → bound.inclusive = bound'.inclusive →
        allows bound = allows bound') : limit.all allows = limit'.all allows := by
  cases limit with
  | none =>
      cases limit' with
      | none => rfl
      | some bound' => cases same
  | some bound =>
      cases limit' with
      | none => cases same
      | some bound' =>
          have sides := Option.some.inj same
          simp only [side, Prod.mk.injEq] at sides
          apply respects bound bound' _ sides.2
          exact Binary64.place?_eq_of_limitText (placed bound rfl) (placed' bound' rfl) sides.1

/-- Limits of the same texts let the same pass. -/
theorem Bounds.admits_eq_of_sides {bounds bounds' : Bounds} (placed : bounds.IsPlaced)
    (placed' : bounds'.IsPlaced) (same : bounds.sides = bounds'.sides) (x : Binary64) :
    bounds.admits x = bounds'.admits x := by
  simp only [sides, Prod.mk.injEq] at same
  rw [admits, admits]
  congr 1
  · apply Bound.all_eq_of_side placed.1 placed'.1 same.1
    intro bound bound' place inclusive
    simp only [Bound.allowsAbove, Binary64.lt, Binary64.eq, place, inclusive]
  · apply Bound.all_eq_of_side placed.2 placed'.2 same.2
    intro bound bound' place inclusive
    simp only [Bound.allowsBelow, Binary64.lt, Binary64.eq, place, inclusive]

namespace Descriptor

/-! ## Values -/

/-- A descriptor that is not a single number from `2 ^ 53` on, where numbers are too far apart to
tell integers from each other. -/
def IsExact : Descriptor → Prop
  | .unit (.float x) => x.magnitudeBelow (2 ^ 53) = true
  | _ => True

/-- Equal numbers are the same as the same values. -/
theorem same_float_congr {x y : Binary64} (same : x.eq y = true) (value : Value) :
    (Value.float x).same value = (Value.float y).same value := by
  have place := Binary64.place?_eq_of_eq same
  cases value with
  | integer n => simp only [Value.same, Value.sameNumber, Value.toFloat?, Binary64.eq, place]
  | float z => simp only [Value.same, Binary64.eq, place]
  | _ => rfl

/-- An integer and a number equal to it and to no other integer are the same as the same values. -/
theorem same_integer_of_only {n : Int64} {x : Binary64}
    (equal : x.eq (Binary64.ofInt n.toInt) = true)
    (only : ∀ m : Int64, x.eq (Binary64.ofInt m.toInt) = true → n = m) (value : Value) :
    (Value.integer n).same value = (Value.float x).same value := by
  have place := Binary64.place?_eq_of_eq equal
  cases value with
  | integer m =>
      simp only [Value.same, Value.sameNumber, Value.toFloat?]
      rw [Bool.eq_iff_iff, beq_iff_eq]
      constructor
      · rintro rfl
        exact equal
      · exact only m
  | float z => simp only [Value.same, Value.sameNumber, Value.toFloat?, Binary64.eq, place]
  | _ => rfl

/-- An integer and an exact number equal to it are the same as the same values. -/
theorem same_integer_congr {n : Int64} {x : Binary64} (exact : IsExact (.unit (.float x)))
    (equal : x.eq (Binary64.ofInt n.toInt) = true) (value : Value) :
    (Value.integer n).same value = (Value.float x).same value :=
  same_integer_of_only equal (fun _ equal' => Binary64.integer_eq_of_eq exact equal equal') value

/-- Values of one kind and one text are the same as the same values. If one of them is an integer and
the other one a number, no other integer may be equal to the number. -/
theorem same_eq_of_unitText {value value' : Value} (isUnit : IsUnit value)
    (isUnit' : IsUnit value')
    (only : ∀ (n m : Int64) (x : Binary64),
      (value = .integer n ∧ value' = .float x) ∨ (value = .float x ∧ value' = .integer n) →
        toString n.toInt = x.limitText → x.eq (Binary64.ofInt m.toInt) = true → n = m)
    (kind : value.kindName = value'.kindName) (text : unitText value = unitText value')
    (other : Value) : value.same other = value'.same other := by
  cases isUnit with
  | boolean b =>
      cases isUnit' with
      | boolean b' =>
          have same : b = b' := by
            cases b <;> cases b' <;> first | rfl | exact absurd text (by decide)
          rw [same]
      | _ => simp [Value.kindName] at kind
  | integer n =>
      cases isUnit' with
      | integer m =>
          have same : n = m := Int64.toInt_inj.mp (Numeral.toString_injective text)
          rw [same]
      | @float y placed' =>
          exact same_integer_of_only (Binary64.eq_ofInt_of_limitText placed' text)
            (fun m => only n m y (.inl ⟨rfl, rfl⟩) text) other
      | _ => simp [Value.kindName] at kind
  | @float x placed =>
      cases isUnit' with
      | integer n =>
          exact (same_integer_of_only (Binary64.eq_ofInt_of_limitText placed text.symm)
            (fun m => only n m x (.inr ⟨rfl, rfl⟩) text.symm) other).symm
      | @float y placed' =>
          have shown : x.limitText.toList = y.limitText.toList := congrArg String.toList text
          have spells := Binary64.spells_limitText placed
          exact same_float_congr
            (Binary64.eq_of_spells spells (shown ▸ Binary64.spells_limitText placed')) other
      | _ => simp [Value.kindName] at kind
  | string s =>
      cases isUnit' with
      | string s' =>
          have texts := congrArg String.toList text
          simp only [unitText, String.toList_ofList, List.cons_append, List.cons.injEq, true_and]
            at texts
          have same := flatMap_quotedChar_injective (List.append_cancel_right texts)
          rw [String.toList_injective same]
      | _ => simp [Value.kindName] at kind

/-! ## Descriptors -/

/-- Values of one kind and one text, one in each of two descriptors, are the same as the same
values. -/
def UnitsAgree (type other : Descriptor) : Prop :=
  ∀ value value', .unit value ∈ type.parts → .unit value' ∈ other.parts →
    IsUnit value → IsUnit value' → value.kindName = value'.kindName →
      unitText value = unitText value' → ∀ data, value.same data = value'.same data

theorem UnitsAgree.mono {type other inside inside' : Descriptor} (agree : UnitsAgree type other)
    (within : inside.parts ⊆ type.parts) (within' : inside'.parts ⊆ other.parts) :
    UnitsAgree inside inside' :=
  fun value value' mem mem' => agree value value' (within mem) (within' mem')

theorem unitsAgree_of_exact {type other : Descriptor} (exact : ∀ part ∈ type.parts, IsExact part)
    (exact' : ∀ part ∈ other.parts, IsExact part) : UnitsAgree type other := by
  intro value value' mem mem' isUnit isUnit'
  refine same_eq_of_unitText isUnit isUnit' ?_
  rintro n m x (⟨rfl, rfl⟩ | ⟨rfl, rfl⟩) shown equal
  · cases isUnit' with
    | float placed =>
        exact Binary64.integer_eq_of_eq (exact' _ mem') (Binary64.eq_ofInt_of_limitText placed shown) equal
  · cases isUnit with
    | float placed =>
        exact Binary64.integer_eq_of_eq (exact _ mem) (Binary64.eq_ofInt_of_limitText placed shown) equal

/-- Members of the same texts admit the same values, if two of one text do. -/
theorem anyAdmits_eq_of_texts {members members' : List Descriptor} {value : Value}
    (texts : members.map text = members'.map text)
    (alike : ∀ first ∈ members, ∀ second ∈ members', first.text = second.text →
      first.admits value = second.admits value) :
    anyAdmits members value = anyAdmits members' value := by
  induction members generalizing members' with
  | nil =>
      cases members' with
      | nil => rfl
      | cons => cases texts
  | cons first members ih =>
      cases members' with
      | nil => cases texts
      | cons second members' =>
          obtain ⟨shown, texts⟩ := List.cons.inj texts
          have here := alike first List.mem_cons_self second List.mem_cons_self shown
          have later := ih texts fun first known second known' =>
            alike first (List.mem_cons_of_mem _ known) second (List.mem_cons_of_mem _ known')
          rw [anyAdmits, anyAdmits, here, later]

/-- Descriptors of one text admit the same values. -/
theorem admits_eq_of_text {type other : Descriptor} (wellFormed : WellFormed type)
    (wellFormed' : WellFormed other) (agree : UnitsAgree type other)
    (same : type.text = other.text) (value : Value) :
    type.admits value = other.admits value := by
  induction wellFormed generalizing other value with
  | unknown =>
      have alike := alike_of_text .unknown wellFormed' rfl same
      cases alike
      rfl
  | @primitive kind subtype bounds refines bounded placed =>
      have alike := alike_of_text (.primitive refines bounded placed) wellFormed' rfl same
      cases alike with
      | primitive _ _ sides =>
          cases wellFormed' with
          | primitive refines' bounded' placed' =>
              have passes := Bounds.admits_eq_of_sides placed placed' sides
              simp only [admits, admitsPrimitive, admitsNumber, admitsString, passes]
  | @unit unit isUnit =>
      have alike := alike_of_text (.unit isUnit) wellFormed' rfl same
      cases alike with
      | unit kind text =>
          cases wellFormed' with
          | unit isUnit' =>
              simp only [admits]
              exact agree _ _ (self_mem_parts _) (self_mem_parts _) isUnit isUnit' kind text value
  | @array element length inside placed ih =>
      have alike := alike_of_text (.array inside placed) wellFormed' rfl same
      cases alike with
      | @array _ element' _ length' texts sides =>
          cases wellFormed' with
          | array inside' placed' =>
              have passes := Bounds.admits_eq_of_sides placed placed' sides
              have elements : element.admits = element'.admits := by
                funext item
                exact ih inside' (agree.mono (List.subset_cons_self _ _)
                  (List.subset_cons_self _ _)) texts item
              cases value with
              | array items => simp only [admits, passes, elements]
              | _ => simp only [admits]
  | @union members several flat inside ih =>
      have wellFormed : WellFormed (.union members) := .union several flat inside
      have isUnion := isUnion_eq_of_text wellFormed wellFormed' same
      cases wellFormed' with
      | @union members' several' flat' inside' =>
          have texts := texts_of_text wellFormed (.union several' flat' inside') same
          rw [admits, admits]
          refine anyAdmits_eq_of_texts texts fun first known second known' shown => ?_
          have within : first.parts ⊆ (union members).parts := parts_member known
          have within' : second.parts ⊆ (union members').parts := parts_member known'
          exact ih first known (inside' second known') (agree.mono within within') shown value
      | _ => cases isUnion

/-- A sorted union admits what one of its sources admits. -/
theorem admits_sortedUnion {types : List Descriptor} {type : Descriptor} {value : Value}
    (wellFormed : ∀ type ∈ types, WellFormed type)
    (exact : ∀ type ∈ types, ∀ member ∈ type.members, ∀ part ∈ member.parts, IsExact part)
    (known : type ∈ types) (admitted : type.admits value = true) :
    (sortedUnion types).admits value = true := by
  obtain ⟨member, inside, admits⟩ := admits_iff_members.mp admitted
  obtain ⟨kept, there, same⟩ := exists_member_sortedUnion wellFormed known inside
  obtain ⟨source, sourceKnown, sourceInside⟩ :=
    mem_members_sortedUnion (List.ne_nil_of_mem known) wellFormed there
  refine admits_iff_members.mpr ⟨kept, there, ?_⟩
  rw [admits_eq_of_text ((wellFormed source sourceKnown).members kept sourceInside).2
    ((wellFormed type known).members member inside).2
    (unitsAgree_of_exact (exact source sourceKnown kept sourceInside)
      (exact type known member inside)) same]
  exact admits

end Descriptor

end Mixfix
