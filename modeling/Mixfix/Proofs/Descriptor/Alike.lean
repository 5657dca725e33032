import Mixfix.Proofs.Descriptor.Words

/-!
# Descriptors of one text

Two well-formed descriptors that have the same canonical text differ in little: both are unions of
members of the same texts, or both are unknown, both have the same kind and refinement with limits
of the same texts, both are values of one kind and of one text, or both are arrays of elements of
the same text (`alike_of_text`, `texts_of_text`).

**Limits.** The number of the words and the mark among them tell where the limits are, so the words
around a base can be read back (`partsOf_wordsAround`).

**Bases.** A base ends in a bracket exactly when it is that of an array, and otherwise its first
character tells texts, numbers and words apart (`classOf`). The words are told apart one by one.
-/

set_option autoImplicit false

namespace Mixfix

/-! ## Limits -/

/-- What the text of a descriptor tells about a bound. -/
def Bound.side (bound : Bound) : String × Bool := (bound.limit.limitText, bound.inclusive)

/-- What the text of a descriptor tells about its limits. -/
def Bounds.sides (bounds : Bounds) : Option (String × Bool) × Option (String × Bool) :=
  (bounds.lower.map Bound.side, bounds.upper.map Bound.side)

namespace Descriptor

/-- The base and the limits that the words of a descriptor tell. -/
def partsOf : List (List Char) →
    List Char × Option (String × Bool) × Option (String × Bool)
  | [base, mark, limit] =>
    let side := fun inclusive => some (String.ofList limit, inclusive)
    if mark = ['=', '='] then (base, side true, side true)
    else if mark.head? = some '>' then (base, side (mark.length == 2), none)
    else (base, none, side (mark.length == 2))
  | [lower, lowerMark, base, upperMark, upper] =>
    (base, some (String.ofList lower, lowerMark.length == 2),
      some (String.ofList upper, upperMark.length == 2))
  | words => (words.headD [], none, none)

theorem belowMark_toList (bound : Bound) :
    (Bounds.belowMark bound).toList = if bound.inclusive then ['<', '='] else ['<'] := by
  unfold Bounds.belowMark
  split <;> rfl

theorem aboveMark_toList (bound : Bound) :
    (Bounds.aboveMark bound).toList = if bound.inclusive then ['>', '='] else ['>'] := by
  unfold Bounds.aboveMark
  split <;> rfl

/-- The words of limits around a base can be read back. -/
theorem partsOf_wordsAround (bounds : Bounds) (base : List Char) :
    partsOf (wordsAround bounds base) = (base, bounds.sides) := by
  obtain ⟨_ | ⟨lower, lowerInclusive⟩, _ | ⟨upper, upperInclusive⟩⟩ := bounds
  · rfl
  · cases upperInclusive <;>
      simp [partsOf, wordsAround, belowMark_toList, Bounds.sides, Bound.side]
  · cases lowerInclusive <;>
      simp [partsOf, wordsAround, aboveMark_toList, Bounds.sides, Bound.side]
  · simp only [wordsAround]
    split
    · next equal =>
        rw [Bool.and_eq_true, Bound.same, Bool.and_eq_true, beq_iff_eq] at equal
        obtain ⟨⟨limits, sides⟩, inclusive⟩ := equal
        have text := Binary64.limitText_eq_of_eq limits
        simp only at sides inclusive text
        subst sides inclusive
        simp [partsOf, Bounds.sides, Bound.side, text]
    · cases lowerInclusive <;> cases upperInclusive <;>
        simp [partsOf, belowMark_toList, Bounds.sides, Bound.side]

/-! ## Bases -/

/-- What the first and the last character of a base tell about it. -/
inductive BaseClass where
  | array
  | quoted
  | numeral
  | word
deriving DecidableEq

/-- The class of a base. -/
def classOf (base : List Char) : BaseClass :=
  if base.getLast? = some ']' then .array
  else if base.head? = some '\'' then .quoted
  else if base.head?.any startsNumeral then .numeral
  else .word

/-- The class of the base of a descriptor. -/
def baseClass : Descriptor → BaseClass
  | .array _ _ => .array
  | .unit (.string _) => .quoted
  | .unit (.integer _) => .numeral
  | .unit (.float _) => .numeral
  | _ => .word

theorem classOf_numeral {text : List Char} (numeral : IsNumeral text) :
    classOf text = .numeral ∧ text.getLast? ≠ some ')' := by
  obtain ⟨⟨c, rest, rfl, starts⟩, chars⟩ := numeral
  have lastNot : ∀ mark, isNumeralChar mark = false → (c :: rest).getLast? ≠ some mark := by
    intro mark outside last
    rw [chars mark (List.mem_of_getLast? last)] at outside
    cases outside
  have quote : (c :: rest).head? ≠ some '\'' := by
    rintro ⟨⟩
    exact absurd starts (by decide)
  refine ⟨?_, lastNot ')' (by decide)⟩
  rw [classOf, if_neg (lastNot ']' (by decide)), if_neg quote]
  simp [starts]

theorem classOf_quoted (text : List Char) :
    classOf ('\'' :: text ++ ['\'']) = .quoted ∧
      ('\'' :: text ++ ['\'']).getLast? ≠ some ')' := by
  have last : ('\'' :: text ++ ['\'']).getLast? = some '\'' := List.getLast?_concat
  rw [classOf, last]
  exact ⟨by simp, by simp⟩

theorem kindText_toList (kind : Kind) (subtype : Option Subtype) :
    (kindText kind subtype).toList =
      kind.keyword.toList ++ (subtype.map fun s => '.' :: s.keyword.toList).getD [] := by
  cases subtype with
  | none => simp [kindText]
  | some subtype => simp [kindText]

theorem classOf_kindText (kind : Kind) (subtype : Option Subtype) :
    classOf (kindText kind subtype).toList = .word ∧
      (kindText kind subtype).toList.getLast? ≠ some ')' := by
  rw [kindText_toList]
  cases subtype with
  | none => cases kind <;> decide
  | some subtype => cases kind <;> cases subtype <;> decide

/-- The first and the last character of a base tell its class. -/
theorem classOf_base {descriptor : Descriptor} (wellFormed : WellFormed descriptor)
    (single : descriptor.isUnion = false) :
    classOf descriptor.base = descriptor.baseClass ∧ descriptor.base.getLast? ≠ some ')' := by
  cases wellFormed with
  | unknown => exact ⟨by rfl, by decide⟩
  | primitive refines bounded placed => exact classOf_kindText _ _
  | unit isUnit =>
      cases isUnit with
      | boolean b => cases b <;> exact ⟨by rfl, by decide⟩
      | integer n => exact classOf_numeral (isNumeral_toString n.toInt)
      | float placed => exact classOf_numeral (Binary64.isNumeral_limitText _)
      | string s =>
          have quoted : base (.unit (.string s)) =
              '\'' :: s.toList.flatMap quotedChar ++ ['\''] := String.toList_ofList
          rw [quoted]
          exact classOf_quoted _
  | @array element length inside placed =>
      have last : (base (.array element length)).getLast? = some ']' := by
        rw [base_array]
        split <;> rw [List.getLast?_append] <;> rfl
      rw [classOf, last]
      exact ⟨by simp [baseClass], by simp⟩
  | union several flat inside => cases single

/-- The word for a kind, as far as the point. -/
theorem kindText_stem (kind : Kind) (subtype : Option Subtype) :
    (kindText kind subtype).toList.takeWhile (· != '.') = kind.keyword.toList := by
  have stem : ∀ c ∈ kind.keyword.toList, (c != '.') = true := by
    cases kind <;> exact List.all_eq_true.mp (by decide)
  rw [kindText_toList, List.takeWhile_append_of_pos stem]
  cases subtype <;> simp

/-- The text of a kind with its refinement determines both. -/
theorem kindText_injective {kind kind' : Kind} {subtype subtype' : Option Subtype}
    (same : (kindText kind subtype).toList = (kindText kind' subtype').toList) :
    kind = kind' ∧ subtype = subtype' := by
  have stems : kind.keyword.toList = kind'.keyword.toList := by
    rw [← kindText_stem kind subtype, same, kindText_stem]
  have kinds : kind = kind' := by
    cases kind <;> cases kind' <;> first | rfl | exact absurd stems (by decide)
  refine ⟨kinds, ?_⟩
  rw [kindText_toList, kindText_toList, ← stems] at same
  have refinements := List.append_cancel_left same
  cases subtype <;> cases subtype'
  · rfl
  · cases refinements
  · cases refinements
  · next refinement refinement' =>
      simp only [Option.map_some, Option.getD_some, List.cons.injEq, true_and] at refinements
      congr 1
      cases refinement <;> cases refinement' <;>
        first | rfl | exact absurd refinements (by decide)

/-- The text of a kind is neither that of the unknown nor that of a truth value. -/
theorem kindText_ne (kind : Kind) (subtype : Option Subtype) (b : Bool) :
    (kindText kind subtype).toList ≠ base .unknown ∧
      (kindText kind subtype).toList ≠ base (.unit (.boolean b)) := by
  have words : ∀ word : List Char, word.takeWhile (· != '.') = word →
      kind.keyword.toList ≠ word → (kindText kind subtype).toList ≠ word := by
    rintro word stem differ rfl
    rw [kindText_stem] at stem
    exact differ stem
  constructor
  · exact words _ (by decide) (by cases kind <;> decide)
  · refine words _ (by cases b <;> decide) ?_
    cases b <;> cases kind <;> decide

/-! ## Descriptors -/

/-- Descriptors that are no unions and that one text can belong to. -/
inductive Alike : Descriptor → Descriptor → Prop
  | unknown : Alike .unknown .unknown
  | primitive (kind : Kind) (subtype : Option Subtype) {bounds bounds' : Bounds}
      (sides : bounds.sides = bounds'.sides) :
      Alike (.primitive kind subtype bounds) (.primitive kind subtype bounds')
  | unit {value value' : Value} (kind : value.kindName = value'.kindName)
      (text : unitText value = unitText value') : Alike (.unit value) (.unit value')
  | array {element element' : Descriptor} {length length' : Bounds}
      (inside : element.text = element'.text) (sides : length.sides = length'.sides) :
      Alike (.array element length) (.array element' length')

theorem unitText_eq_of_base {value value' : Value}
    (same : base (.unit value) = base (.unit value')) : unitText value = unitText value' :=
  String.toList_injective same

/-- The base of an array determines the text of its elements. -/
theorem text_element_of_base {element element' : Descriptor} {length length' : Bounds}
    (wellFormed : WellFormed element) (wellFormed' : WellFormed element')
    (same : base (.array element length) = base (.array element' length')) :
    element.text = element'.text := by
  have inner : ∀ (element : Descriptor) (length : Bounds), base (.array element length) =
      (if element.isGrouped then '(' :: element.text.toList ++ [')'] else element.text.toList) ++
        ['[', ']'] := by
    intro element length
    rw [base_array]
    split <;> simp
  have open_of_last : ∀ {element : Descriptor}, WellFormed element → element.isGrouped = false →
      element.text.toList.getLast? ≠ some ')' := by
    intro element wellFormed alone
    rw [text_of_not_isGrouped alone]
    exact (classOf_base wellFormed (isUnion_of_not_isGrouped alone)).2
  rw [inner, inner] at same
  have texts := List.append_cancel_right same
  have lasts := congrArg List.getLast? texts
  refine String.toList_injective ?_
  split at texts <;> split at texts
  · exact List.append_cancel_right (List.tail_eq_of_cons_eq texts)
  · next grouped alone =>
      rw [Bool.not_eq_true] at alone
      rw [if_pos grouped, if_neg (by simp [alone]), List.getLast?_concat] at lasts
      exact absurd lasts.symm (open_of_last wellFormed' alone)
  · next alone grouped =>
      rw [Bool.not_eq_true] at alone
      rw [if_pos grouped, if_neg (by simp [alone]), List.getLast?_concat] at lasts
      exact absurd lasts (open_of_last wellFormed alone)
  · exact texts

/-- Among the values only the truth values are written as words. -/
theorem boolean_of_word {value : Value} (isUnit : IsUnit value)
    (word : baseClass (.unit value) = .word) : ∃ b, value = .boolean b := by
  cases isUnit with
  | boolean b => exact ⟨b, rfl⟩
  | integer n => cases word
  | float placed => cases word
  | string s => cases word

theorem base_boolean_ne_unknown (b : Bool) : base (.unit (.boolean b)) ≠ base .unknown := by
  cases b <;> decide

/-- Descriptors of one base with limits of the same texts are alike. -/
theorem alike_of_base {descriptor other : Descriptor} (wellFormed : WellFormed descriptor)
    (wellFormed' : WellFormed other) (single : descriptor.isUnion = false)
    (single' : other.isUnion = false) (bases : descriptor.base = other.base)
    (sides : descriptor.limits.sides = other.limits.sides) : Alike descriptor other := by
  have classes : descriptor.baseClass = other.baseClass := by
    rw [← (classOf_base wellFormed single).1, bases, (classOf_base wellFormed' single').1]
  cases wellFormed with
  | unknown =>
      cases wellFormed' with
      | unknown => exact .unknown
      | primitive refines bounded placed => exact absurd bases.symm (kindText_ne _ _ true).1
      | unit isUnit =>
          obtain ⟨b, rfl⟩ := boolean_of_word isUnit classes.symm
          exact absurd bases.symm (base_boolean_ne_unknown b)
      | array inside placed => cases classes
      | union several flat inside => cases single'
  | primitive refines bounded placed =>
      cases wellFormed' with
      | unknown => exact absurd bases (kindText_ne _ _ true).1
      | primitive refines' bounded' placed' =>
          obtain ⟨rfl, rfl⟩ := kindText_injective bases
          exact .primitive _ _ sides
      | unit isUnit =>
          obtain ⟨b, rfl⟩ := boolean_of_word isUnit classes.symm
          exact absurd bases (kindText_ne _ _ b).2
      | array inside placed' => cases classes
      | union several flat inside => cases single'
  | unit isUnit =>
      cases wellFormed' with
      | unknown =>
          obtain ⟨b, rfl⟩ := boolean_of_word isUnit classes
          exact absurd bases (base_boolean_ne_unknown b)
      | primitive refines bounded placed =>
          obtain ⟨b, rfl⟩ := boolean_of_word isUnit classes
          exact absurd bases.symm (kindText_ne _ _ b).2
      | unit isUnit' =>
          have texts := unitText_eq_of_base bases
          cases isUnit <;> cases isUnit' <;> first | exact .unit rfl texts | cases classes
      | array inside placed => cases isUnit <;> cases classes
      | union several flat inside => cases single'
  | array inside placed =>
      cases wellFormed' with
      | unknown => cases classes
      | primitive refines bounded placed' => cases classes
      | unit isUnit => cases isUnit <;> cases classes
      | array inside' placed' => exact .array (text_element_of_base inside inside' bases) sides
      | union several flat inside' => cases single'
  | union several flat inside => cases single

theorem base_ne_bar {descriptor : Descriptor} (wellFormed : WellFormed descriptor)
    (single : descriptor.isUnion = false) : descriptor.base ≠ ['|'] := by
  intro same
  have word := (classOf_base wellFormed single).1
  rw [same] at word
  cases wellFormed with
  | unknown => exact absurd same (by decide)
  | @primitive kind subtype bounds refines bounded placed =>
      have stem := kindText_stem kind subtype
      rw [show (kindText kind subtype).toList = ['|'] from same] at stem
      cases kind <;> exact absurd stem (by decide)
  | unit isUnit =>
      obtain ⟨b, rfl⟩ := boolean_of_word isUnit word.symm
      cases b <;> exact absurd same (by decide)
  | array inside placed => cases word
  | union several flat inside => cases single

/-- No word of a descriptor that is no union is a bar. -/
theorem bar_not_mem_memberWords {descriptor : Descriptor} (wellFormed : WellFormed descriptor)
    (single : descriptor.isUnion = false) : ['|'] ∉ memberWords descriptor := by
  intro mem
  rcases mem_wordsAround mem with base | equal | ⟨bound, below⟩ | ⟨bound, above⟩ | ⟨x, limit⟩
  · exact base_ne_bar wellFormed single base.symm
  · exact absurd equal (by decide)
  · rw [belowMark_toList] at below
    split at below <;> exact absurd below (by decide)
  · rw [aboveMark_toList] at above
    split at above <;> exact absurd above (by decide)
  · have bar := x.isNumeral_limitText.2 '|' (by rw [← limit]; exact List.mem_singleton_self _)
    exact absurd bar (by decide)

theorem wordsOf_single {descriptor : Descriptor} (single : descriptor.isUnion = false) :
    wordsOf descriptor = memberWords descriptor := by
  cases descriptor with
  | union members => cases single
  | _ => rfl

theorem bar_mem_wordsOf_union {members : List Descriptor} (several : 2 ≤ members.length) :
    ['|'] ∈ wordsOf (.union members) := by
  rcases members with _ | ⟨first, _ | ⟨second, members⟩⟩
  · simp at several
  · simp at several
  · simp [wordsOf, List.intercalate_cons_cons]

/-- The text of a well-formed descriptor tells whether it is a union. -/
theorem isUnion_eq_of_text {descriptor other : Descriptor} (wellFormed : WellFormed descriptor)
    (wellFormed' : WellFormed other) (same : descriptor.text = other.text) :
    descriptor.isUnion = other.isUnion := by
  have bars : ∀ {descriptor}, WellFormed descriptor →
      (descriptor.isUnion = true ↔ ['|'] ∈ wordsOf descriptor) := by
    intro descriptor wellFormed
    cases single : descriptor.isUnion with
    | true =>
        cases wellFormed with
        | union several flat inside => simp [bar_mem_wordsOf_union several]
        | _ => cases single
    | false => simp [wordsOf_single single, bar_not_mem_memberWords wellFormed single]
  rw [Bool.eq_iff_iff, bars wellFormed, bars wellFormed',
    wordsOf_eq_of_text_eq wellFormed wellFormed' same]

/-- Descriptors of one text that are no unions are alike. -/
theorem alike_of_text {descriptor other : Descriptor} (wellFormed : WellFormed descriptor)
    (wellFormed' : WellFormed other) (single : descriptor.isUnion = false)
    (same : descriptor.text = other.text) : Alike descriptor other := by
  have single' : other.isUnion = false :=
    (isUnion_eq_of_text wellFormed wellFormed' same).symm.trans single
  have words := wordsOf_eq_of_text_eq wellFormed wellFormed' same
  rw [wordsOf_single single, wordsOf_single single'] at words
  have parts := congrArg partsOf words
  rw [memberWords, memberWords, partsOf_wordsAround, partsOf_wordsAround, Prod.mk.injEq] at parts
  exact alike_of_base wellFormed wellFormed' single single' parts.1 parts.2

/-- The text of a union determines the texts of its members. -/
theorem texts_of_text {members members' : List Descriptor}
    (wellFormed : WellFormed (.union members)) (wellFormed' : WellFormed (.union members'))
    (same : text (.union members) = text (.union members')) :
    members.map text = members'.map text := by
  have split : ∀ {members}, WellFormed (.union members) →
      (wordsOf (.union members)).splitOn ['|'] = members.map memberWords := by
    intro members wellFormed
    have inside := wellFormed.members
    refine List.splitOn_intercalate _ ?_ ?_
    · intro words mem
      obtain ⟨member, known, rfl⟩ := List.mem_map.mp mem
      exact bar_not_mem_memberWords (inside member known).2 (inside member known).1
    · exact fun none => wellFormed.members_ne_nil (List.map_eq_nil_iff.mp none)
  have words : members.map memberWords = members'.map memberWords := by
    rw [← split wellFormed, ← split wellFormed', wordsOf_eq_of_text_eq wellFormed wellFormed' same]
  have texts : ∀ {members}, WellFormed (.union members) →
      members.map text = (members.map memberWords).map fun words => String.ofList (spaced words) := by
    intro members wellFormed
    rw [List.map_map, List.map_inj_left]
    intro member known
    rw [Function.comp_apply, ← toList_text_member (wellFormed.members member known).1,
      String.ofList_toList]
  rw [texts wellFormed, texts wellFormed', words]

end Descriptor

end Mixfix
