import Mixfix.Proofs.Descriptor.Legibility
import Mixfix.Proofs.Descriptor.Primaries

/-!
# Bases are read back

What is read from the text of a descriptor is not the same descriptor in all respects: the zero below
zero loses its sign, and a number with the text of an integer becomes the integer. What is kept is the
text, and that it is a union and is grouped or not; these determine the text of the descriptor around
it (`Rereads`). The base is kept as well, and the limits are put around it again by the readers of
terms (`RereadsBase.limited`).

A legible base is read back: directly, if it has no elements (`isReadableBase_unit` and the lemmas
around it); from the base of its element, if this one stands without parentheses
(`isReadableBase_alone`); and from the whole text of its element otherwise
(`isReadableBase_grouped`).
-/

set_option autoImplicit false

namespace Mixfix

namespace Descriptor

/-- Whether a descriptor can be bounded. -/
def isBounded : Descriptor → Bool
  | .primitive kind _ _ => kind.isBounded
  | .array _ _ => true
  | _ => false

/-- A descriptor with other limits, if it can have limits. -/
def withLimits (bounds : Bounds) : Descriptor → Descriptor
  | .primitive kind subtype _ => .primitive kind subtype bounds
  | .array element _ => .array element bounds
  | descriptor => descriptor

variable {descriptor again : Descriptor} {behind : List Char}

/-- Descriptors other than unions are grouped exactly if they have limits. -/
theorem isGrouped_eq (single : descriptor.isUnion = false) :
    descriptor.isGrouped = !descriptor.limits.isEmpty := by
  cases descriptor with
  | union members => cases single
  | _ => rfl

/-! ## What is kept -/

/-- What is read back from the text of a descriptor. -/
structure Rereads (descriptor again : Descriptor) : Prop where
  text : again.text = descriptor.text
  union : again.isUnion = descriptor.isUnion
  grouped : again.isGrouped = descriptor.isGrouped
  settled : ∀ part ∈ again.parts, IsSettled part

/-- What is read back from the base of a descriptor. -/
structure RereadsBase (descriptor again : Descriptor) : Prop where
  base : again.base = descriptor.base
  single : again.isUnion = false
  limits : again.limits = .none
  bounded : again.isBounded = descriptor.isBounded
  settled : ∀ part ∈ again.parts, IsSettled part

/-- A descriptor without other parts is settled in all of them if it is settled itself. -/
theorem settled_parts_alone (alone : descriptor.parts = [descriptor])
    (settled : IsSettled descriptor) : ∀ part ∈ descriptor.parts, IsSettled part := by
  intro part mem
  rw [alone] at mem
  exact List.mem_singleton.mp mem ▸ settled

theorem settled_parts_array {element : Descriptor} (length : Bounds)
    (settled : ∀ part ∈ element.parts, IsSettled part) :
    ∀ part ∈ (array element length).parts, IsSettled part := by
  intro part mem
  rcases List.mem_cons.mp mem with rfl | inside
  · trivial
  · exact settled part inside

/-! ## Limits -/

/-- Other limits change nothing but the limits. -/
theorem withLimits_spec (bounds : Bounds) (bounded : descriptor.isBounded = true) :
    (descriptor.withLimits bounds).base = descriptor.base ∧
      (descriptor.withLimits bounds).limits = bounds ∧
      (descriptor.withLimits bounds).isUnion = false ∧
      (descriptor.withLimits bounds).isBounded = true := by
  cases descriptor with
  | primitive kind subtype _ => exact ⟨rfl, rfl, rfl, bounded⟩
  | array element _ => exact ⟨rfl, rfl, rfl, rfl⟩
  | _ => cases bounded

theorem withLimits_withLimits (bounds bounds' : Bounds) :
    (descriptor.withLimits bounds).withLimits bounds' = descriptor.withLimits bounds' := by
  cases descriptor <;> rfl

theorem settled_withLimits (bounds : Bounds)
    (settled : ∀ part ∈ descriptor.parts, IsSettled part) :
    ∀ part ∈ (descriptor.withLimits bounds).parts, IsSettled part := by
  cases descriptor with
  | primitive kind subtype _ => exact settled_parts_alone rfl trivial
  | array element _ =>
      exact settled_parts_array bounds fun part mem => settled part (List.mem_cons_of_mem _ mem)
  | _ => exact settled

theorem limit_eq (side : Side) (bound : Bound) (bounded : descriptor.isBounded = true) :
    limit side bound descriptor =
      (limitSide bound descriptor.limits side).map fun bounds => descriptor.withLimits bounds := by
  cases descriptor with
  | primitive kind subtype bounds =>
      have bounded : kind.isBounded = true := bounded
      simp only [limit, bounded, if_true]
      rfl
  | array element length => rfl
  | _ => cases bounded

theorem limit_lower {upper : Option Bound} (bound : Bound) (bounded : descriptor.isBounded = true)
    (limits : descriptor.limits = ⟨none, upper⟩) :
    limit .lower bound descriptor = .ok (descriptor.withLimits ⟨some bound, upper⟩) := by
  rw [limit_eq _ _ bounded, limits]
  rfl

theorem limit_upper {lower : Option Bound} (bound : Bound) (bounded : descriptor.isBounded = true)
    (limits : descriptor.limits = ⟨lower, none⟩) :
    limit .upper bound descriptor = .ok (descriptor.withLimits ⟨lower, some bound⟩) := by
  rw [limit_eq _ _ bounded, limits]
  rfl

/-- A limit above and a limit below can be added one after the other. -/
theorem limit_both (lower upper : Bound) (bounded : descriptor.isBounded = true)
    (limits : descriptor.limits = .none) :
    limit .lower lower descriptor = .ok (descriptor.withLimits ⟨some lower, none⟩) ∧
      limit .upper upper (descriptor.withLimits ⟨some lower, none⟩) =
        .ok (descriptor.withLimits ⟨some lower, some upper⟩) := by
  obtain ⟨-, limited, -, still⟩ := withLimits_spec ⟨some lower, none⟩ bounded
  refine ⟨limit_lower lower bounded limits, ?_⟩
  rw [limit_upper upper still limited, withLimits_withLimits]

/-- The words around a base are those of equal limits. -/
theorem wordsAround_eq_of_same {bounds bounds' : Bounds} (same : bounds.same bounds' = true)
    (base : List Char) : wordsAround bounds base = wordsAround bounds' base := by
  have alike : ∀ {bound bound' : Bound}, bound.same bound' = true →
      bound.limit.place? = bound'.limit.place? ∧ bound.limit.limitText = bound'.limit.limitText ∧
        bound.inclusive = bound'.inclusive := by
    intro bound bound' same
    rw [Bound.same, Bool.and_eq_true, beq_iff_eq] at same
    exact ⟨Binary64.place?_eq_of_eq same.1, Binary64.limitText_eq_of_eq same.1, same.2⟩
  obtain ⟨_ | lower, _ | upper⟩ := bounds <;> obtain ⟨_ | lower', _ | upper'⟩ := bounds' <;>
    simp only [Bounds.same, Bounds.sameLimit, Bool.and_eq_true, Bool.true_and, Bool.and_true,
      Bool.false_eq_true, Bool.and_false, Bool.false_and] at same
  · rfl
  · obtain ⟨-, text, inclusive⟩ := alike same
    simp only [wordsAround, Bounds.belowMark, text, inclusive]
  · obtain ⟨-, text, inclusive⟩ := alike same
    simp only [wordsAround, Bounds.aboveMark, text, inclusive]
  · obtain ⟨place, text, inclusive⟩ := alike same.1
    obtain ⟨place', text', inclusive'⟩ := alike same.2
    have equal : lower.same upper = lower'.same upper' := by
      simp only [Bound.same, Binary64.eq, place, place', inclusive, inclusive']
    simp only [wordsAround, Bounds.belowMark, equal, text, text', inclusive, inclusive']

theorem isEmpty_eq_of_same {bounds bounds' : Bounds} (same : bounds.same bounds' = true) :
    bounds.isEmpty = bounds'.isEmpty := by
  obtain ⟨_ | lower, _ | upper⟩ := bounds <;> obtain ⟨_ | lower', _ | upper'⟩ := bounds' <;>
    first | rfl | simp [Bounds.same, Bounds.sameLimit] at same

/-- A base without limits is read back as a whole. -/
theorem RereadsBase.rereads (kept : RereadsBase descriptor again)
    (single : descriptor.isUnion = false) (limits : descriptor.limits = .none) :
    Rereads descriptor again := by
  refine ⟨String.toList_injective ?_, kept.single.trans single.symm, ?_, kept.settled⟩
  · rw [toList_text_member single, toList_text_member kept.single, memberWords, memberWords,
      kept.base, kept.limits, limits]
  · rw [isGrouped_eq single, isGrouped_eq kept.single, kept.limits, limits]

/-- A base is read back as a whole with limits equal to those of the descriptor. -/
theorem RereadsBase.limited {bounds : Bounds} (kept : RereadsBase descriptor again)
    (bounded : descriptor.isBounded = true) (single : descriptor.isUnion = false)
    (same : bounds.same descriptor.limits = true) :
    Rereads descriptor (again.withLimits bounds) := by
  obtain ⟨base, limits, single', -⟩ := withLimits_spec bounds (kept.bounded.trans bounded)
  refine ⟨String.toList_injective ?_, single'.trans single.symm, ?_,
    settled_withLimits bounds kept.settled⟩
  · rw [toList_text_member single, toList_text_member single', memberWords, memberWords, base,
      limits, kept.base, wordsAround_eq_of_same same]
  · rw [isGrouped_eq single, isGrouped_eq single', limits, isEmpty_eq_of_same same]

/-! ## Bases -/

/-- Behind a closing parenthesis or nothing no part of a descriptor follows. -/
def Closes (behind : List Char) : Prop := behind = [] ∨ ∃ rest, behind = ')' :: rest

/-- The text of a descriptor is read back, with parentheses as deep as the text is long. -/
def IsReadable (descriptor : Descriptor) : Prop :=
  ∃ again, Rereads descriptor again ∧ ∀ depth, descriptor.text.toList.length ≤ depth →
    ∀ behind, Closes behind → Reads (readUnion (depth + 1)) descriptor.text.toList behind again

/-- The reader of bases comes to the end of a text: it first reads another base, and then array
marks. -/
def ReadsBase (depth : Nat) (base : List Char) (result : Descriptor) : Prop :=
  ∀ behind, EndsBase behind → ∀ cursor, ahead cursor = base ++ behind →
    ∃ primary next after, readPrimary (readUnion depth) cursor = .ok (primary, next) ∧
      Marked primary next result after ∧ ahead after = dropSpace behind

/-- The base of a descriptor is read back. -/
def IsReadableBase (descriptor : Descriptor) : Prop :=
  ∃ again, RereadsBase descriptor again ∧
    ∀ depth, descriptor.base.length ≤ depth → ReadsBase depth descriptor.base again

/-- A base that is read without array marks is read back. -/
theorem isReadableBase_of_primary (again : Descriptor) (kept : RereadsBase descriptor again)
    (reads : ∀ {inner : Reader Descriptor} {cursor : Cursor} {behind : List Char},
      EndsBase behind → ahead cursor = descriptor.base ++ behind →
        ∃ next, readPrimary inner cursor = .ok (again, next) ∧ next.rest = behind) :
    IsReadableBase descriptor := by
  refine ⟨again, kept, fun depth _ behind ends cursor written => ?_⟩
  obtain ⟨next, read, rest⟩ := reads ends written
  exact ⟨again, next, next, read, .refl again next, by rw [ahead_eq, rest]⟩

theorem isReadableBase_unknown : IsReadableBase .unknown := by
  have known : ofWord "unknown".toList = .ok .unknown := rfl
  refine isReadableBase_of_primary .unknown ⟨rfl, rfl, rfl, rfl, settled_parts_alone rfl trivial⟩ ?_
  intro inner cursor behind ends written
  exact readPrimary_word known (by decide) (by decide) written ends

theorem isReadableBase_primitive {kind : Kind} {subtype : Option Subtype} (bounds : Bounds)
    (refines : ∀ refinement ∈ subtype, refinement.kind = kind) :
    IsReadableBase (.primitive kind subtype bounds) := by
  refine isReadableBase_of_primary (.primitive kind subtype .none)
    ⟨rfl, rfl, rfl, rfl, settled_parts_alone rfl trivial⟩ ?_
  intro inner cursor behind ends written
  refine readPrimary_word (ofWord_kindText refines) ?_ ?_ written ends
  · rw [kindText_toList]
    cases subtype with
    | none => cases kind <;> decide
    | some refinement => cases kind <;> cases refinement <;> decide
  · rw [kindText_toList]
    cases kind <;> rfl

/-- The text of a finite number is read as a number of the same text. -/
theorem exists_number {value : Value} (numeral : isNumeral (.unit value) = true) :
    ∃ number, IsNumberText (unitText value).toList ∧
      numberOf? (unitText value).toList = some number ∧
      Rereads (.unit value) (.unit number.value) := by
  cases value with
  | integer n =>
      obtain ⟨number, found, same⟩ := numberOf?_toString n
      refine ⟨number, isNumberText_toString n.toInt, found, ?_⟩
      rw [same]
      exact ⟨rfl, rfl, rfl, settled_parts_alone rfl trivial⟩
  | float x =>
      obtain ⟨number, found, stands⟩ := numberOf?_limitText numeral
      exact ⟨number, isNumberText_limitText numeral, found, stands.text, rfl, rfl,
        settled_parts_alone rfl (isSettled_of_numberOf? found stands.text)⟩
  | _ => cases numeral

theorem isReadableBase_unit {value : Value} (isUnit : IsUnit value)
    (legible : hasLegibleBase (.unit value) = true) : IsReadableBase (.unit value) := by
  have ofNumber (numeral : isNumeral (.unit value) = true) : IsReadableBase (.unit value) := by
    obtain ⟨number, isNumber, found, kept⟩ := exists_number numeral
    refine isReadableBase_of_primary (.unit number.value)
      ⟨congrArg String.toList kept.text, rfl, rfl, rfl, kept.settled⟩ ?_
    intro inner cursor behind ends written
    exact readPrimary_number isNumber found written ends
  cases isUnit with
  | boolean b =>
      refine isReadableBase_of_primary (.unit (.boolean b))
        ⟨rfl, rfl, rfl, rfl, settled_parts_alone rfl trivial⟩ ?_
      intro inner cursor behind ends written
      cases b with
      | true => exact readPrimary_word rfl (by decide) (by decide) written ends
      | false => exact readPrimary_word rfl (by decide) (by decide) written ends
  | string s =>
      refine isReadableBase_of_primary (.unit (.string s))
        ⟨rfl, rfl, rfl, rfl, settled_parts_alone rfl trivial⟩ ?_
      intro inner cursor behind ends written
      exact readPrimary_quoted s written
  | integer n => exact ofNumber rfl
  | float placed => exact ofNumber legible

theorem begins_marks (behind : List Char) : Begins (['[', ']'] ++ behind) :=
  ⟨'[', ']' :: behind, rfl, by decide⟩

/-- The base of an array is read back from the text of its element, if this one is grouped. -/
theorem isReadableBase_grouped {element : Descriptor} (length : Bounds)
    (wellFormed : WellFormed element) (grouped : element.isGrouped = true)
    (readable : IsReadable element) : IsReadableBase (.array element length) := by
  obtain ⟨again, kept, reads⟩ := readable
  have grouped' : again.isGrouped = true := kept.grouped.trans grouped
  have base : base (.array element length) = '(' :: element.text.toList ++ [')', '[', ']'] := by
    rw [base_array, if_pos grouped]
  refine ⟨.array again .none, ⟨?_, rfl, rfl, rfl, settled_parts_array .none kept.settled⟩, ?_⟩
  · rw [base, base_array, if_pos grouped', kept.text]
  · intro depth deep behind ends cursor written
    rw [base, List.length_append] at deep
    simp only [List.length_cons, List.length_nil] at deep
    -- the parentheses leave room for one depth less
    obtain ⟨enclosed, rfl⟩ : ∃ enclosed, depth = enclosed + 1 := ⟨depth - 1, by omega⟩
    have written : ahead cursor = '(' :: element.text.toList ++ ')' :: (['[', ']'] ++ behind) := by
      rw [written, base]
      simp
    obtain ⟨next, read, rest⟩ := readPrimary_group (begins_text wellFormed)
      (reads enclosed (by omega) _ (.inr ⟨_, rfl⟩)) written
    have mark : ahead next = ['[', ']'] ++ behind := by
      rw [ahead_eq, rest, (begins_marks behind).dropSpace]
    obtain ⟨after, marked, rest⟩ := (Marked.refl again next).mark mark
    exact ⟨again, next, after, read, marked, by rw [ahead_eq, rest]⟩

/-- The base of an array is read back from the base of its element, if this one is not grouped. -/
theorem isReadableBase_alone {element : Descriptor} (length : Bounds)
    (alone : element.isGrouped = false) (readable : IsReadableBase element) :
    IsReadableBase (.array element length) := by
  obtain ⟨again, kept, reads⟩ := readable
  have alone' : again.isGrouped = false := by
    rw [isGrouped_eq kept.single, kept.limits]
    rfl
  have base : base (.array element length) = element.base ++ ['[', ']'] := by
    rw [base_array, alone, text_of_not_isGrouped alone]
    rfl
  refine ⟨.array again .none, ⟨?_, rfl, rfl, rfl, settled_parts_array .none kept.settled⟩, ?_⟩
  · rw [base, base_array, alone', text_of_not_isGrouped alone', kept.base]
    rfl
  · intro depth deep behind ends cursor written
    rw [base, List.length_append] at deep
    rw [base, List.append_assoc] at written
    obtain ⟨primary, next, after, read, marked, rest⟩ :=
      reads depth (Nat.le_of_add_right_le deep) _ (by rfl) cursor written
    rw [(begins_marks behind).dropSpace] at rest
    obtain ⟨last, marked, rest⟩ := marked.mark rest
    exact ⟨primary, next, last, read, marked, by rw [ahead_eq, rest]⟩

/-- Where no array mark follows, the reader of bases reads a base. -/
theorem reads_readBase {base : List Char} {depth : Nat} (ends : EndsBase behind)
    (unmarked : (dropSpace behind).head? ≠ some '[') (reads : ReadsBase depth base again) :
    Reads (readBase (readUnion depth)) base behind again := by
  intro cursor written
  obtain ⟨primary, next, after, read, marked, rest⟩ := reads behind ends cursor written
  refine ⟨skipSpace after, ?_, by rw [ahead_skipSpace, rest]⟩
  simp only [readBase, read, bind, Except.bind]
  rw [marked.stops (rest ▸ unmarked)]

end Descriptor

end Mixfix
