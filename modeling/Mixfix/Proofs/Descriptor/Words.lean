import Mixfix.Proofs.Binary64.Characters
import Mixfix.Proofs.Descriptor.WellFormed
import Mixfix.Descriptor.Text
import Mixfix.Proofs.Text.Spacing

/-!
# The words of a descriptor

The canonical text of a descriptor is its words with single spaces between them (`toList_text`). A
descriptor that is no union has one word for its base, and the words of its limits around it; the
words of a union are those of its members with a bar between them. All words of a well-formed
descriptor are solid (`solid_wordsOf`), so its text determines them (`wordsOf_eq_of_text_eq`).
-/

set_option autoImplicit false

namespace Mixfix.Descriptor

/-! ## Words -/

/-- The base of a descriptor without its limits. -/
def base : Descriptor → List Char
  | .unknown => "unknown".toList
  | .primitive kind subtype _ => (kindText kind subtype).toList
  | .unit value => (unitText value).toList
  | .array element _ =>
    if element.isGrouped then '(' :: element.text.toList ++ [')', '[', ']']
    else element.text.toList ++ ['[', ']']
  | .union _ => []

/-- The limits of a descriptor. -/
def limits : Descriptor → Bounds
  | .primitive _ _ bounds => bounds
  | .array _ length => length
  | _ => .none

/-- The words of limits around a base. -/
def wordsAround (bounds : Bounds) (base : List Char) : List (List Char) :=
  match bounds.lower, bounds.upper with
  | none, none => [base]
  | some lower, some upper =>
    if lower.same upper && lower.inclusive then
      [base, ['=', '='], lower.limit.limitText.toList]
    else
      [lower.limit.limitText.toList, (Bounds.belowMark lower).toList, base,
        (Bounds.belowMark upper).toList, upper.limit.limitText.toList]
  | some lower, none => [base, (Bounds.aboveMark lower).toList, lower.limit.limitText.toList]
  | none, some upper => [base, (Bounds.belowMark upper).toList, upper.limit.limitText.toList]

/-- The words of a descriptor that is no union. -/
def memberWords (descriptor : Descriptor) : List (List Char) :=
  wordsAround descriptor.limits descriptor.base

/-- The words of a descriptor. -/
def wordsOf : Descriptor → List (List Char)
  | .union members => [['|']].intercalate (members.map memberWords)
  | descriptor => memberWords descriptor

theorem base_array (element : Descriptor) (length : Bounds) :
    base (.array element length) =
      if element.isGrouped then '(' :: element.text.toList ++ [')', '[', ']']
      else element.text.toList ++ ['[', ']'] :=
  rfl

theorem wordsAround_ne_nil (bounds : Bounds) (base : List Char) : wordsAround bounds base ≠ [] := by
  unfold wordsAround
  split
  · simp
  · split <;> simp
  · simp
  · simp

/-- The text of limits around a base is their words. -/
theorem toList_around (bounds : Bounds) (base : String) :
    (bounds.around base).toList = spaced (wordsAround bounds base.toList) := by
  obtain ⟨lower, upper⟩ := bounds
  cases lower <;> cases upper
  · simp [Bounds.around, wordsAround, spaced]
  · simp [Bounds.around, wordsAround, spaced, List.intercalate_cons_cons]
  · simp [Bounds.around, wordsAround, spaced, List.intercalate_cons_cons]
  · simp only [Bounds.around, wordsAround]
    split <;> simp [spaced, List.intercalate_cons_cons]

theorem toList_text_member {descriptor : Descriptor} (single : descriptor.isUnion = false) :
    descriptor.text.toList = spaced (memberWords descriptor) := by
  cases descriptor with
  | unknown => exact toList_around .none "unknown"
  | primitive kind subtype bounds => exact toList_around bounds (kindText kind subtype)
  | unit value => exact toList_around .none (unitText value)
  | array element length =>
      rw [text, toList_around, memberWords, base_array, limits]
      split <;> simp
  | union members => cases single

theorem texts_eq_map (members : List Descriptor) : texts members = members.map text := by
  induction members with
  | nil => rfl
  | cons member members ih => rw [texts, ih, List.map_cons]

/-- The text of a descriptor is its words with spaces between them. -/
theorem toList_text {descriptor : Descriptor} (wellFormed : WellFormed descriptor) :
    descriptor.text.toList = spaced (wordsOf descriptor) := by
  cases wellFormed with
  | @union members several flat inside =>
      have bars : wordsOf (.union members) = [['|']].intercalate (members.map memberWords) := rfl
      have single : (members.map text).map String.toList = (members.map memberWords).map spaced := by
        rw [List.map_map, List.map_map, List.map_inj_left]
        exact fun member mem => toList_text_member (flat member mem)
      rw [text, joinMembers, texts_eq_map, String.toList_intercalate, single, bars,
        spaced_intercalate]
      · rfl
      · intro group mem
        obtain ⟨member, _, rfl⟩ := List.mem_map.mp mem
        exact wordsAround_ne_nil _ _
  | unknown => exact toList_text_member rfl
  | primitive refines bounded placed => exact toList_text_member rfl
  | unit isUnit => exact toList_text_member rfl
  | array inside placed => exact toList_text_member rfl

/-! ## Solid words -/

theorem isPlainChar_of_isNumeralChar {c : Char} (numeral : isNumeralChar c = true) :
    isPlainChar c = true := by
  rw [isPlainChar]
  simp only [Bool.and_eq_true, bne_iff_ne]
  refine ⟨⟨⟨?_, ?_⟩, ?_⟩, ?_⟩ <;>
    rintro rfl <;> exact absurd numeral (by decide)

variable {depth : Nat}

theorem solid_limitText (x : Binary64) : Solid depth x.limitText.toList :=
  solid_of_plain fun c mem => isPlainChar_of_isNumeralChar (x.isNumeral_limitText.2 c mem)

theorem solid_belowMark (bound : Bound) : Solid depth (Bounds.belowMark bound).toList := by
  unfold Bounds.belowMark
  split <;> exact solid_of_all rfl

theorem solid_aboveMark (bound : Bound) : Solid depth (Bounds.aboveMark bound).toList := by
  unfold Bounds.aboveMark
  split <;> exact solid_of_all rfl

theorem solid_kindText (kind : Kind) (subtype : Option Subtype) :
    Solid depth (kindText kind subtype).toList := by
  have kindPlain : ∀ c ∈ kind.keyword.toList, isPlainChar c = true := by
    cases kind <;> exact List.all_eq_true.mp (by decide)
  cases subtype with
  | none => exact solid_of_plain kindPlain
  | some subtype =>
      have subtypePlain : ∀ c ∈ subtype.keyword.toList, isPlainChar c = true := by
        cases subtype <;> exact List.all_eq_true.mp (by decide)
      rw [kindText, String.toList_append, String.toList_append]
      exact ((solid_of_plain kindPlain).append (solid_of_all rfl)).append
        (solid_of_plain subtypePlain)

/-- A quoted text is passed over as a whole. -/
theorem solid_quoted (text : List Char) :
    Solid depth ('\'' :: text.flatMap quotedChar ++ ['\'']) := by
  intro rest
  have scanned : topWords depth .inside (text.flatMap quotedChar ++ '\'' :: rest) =
      prepend (text.flatMap quotedChar ++ ['\'']) (topWords depth .outside rest) := by
    induction text with
    | nil => simp [topWords, nextDepth, QuoteState.next]
    | cons c text ih =>
        rw [List.flatMap_cons, List.append_assoc, List.append_assoc, prepend_append, ← ih]
        by_cases marked : c = '\'' ∨ c = '\\'
        · have quoted : quotedChar c = ['\\', c] := by
            simp only [quotedChar, Bool.or_eq_true, decide_eq_true_eq, if_pos marked]
          rw [quoted]
          have passes : ∀ words, prepend ['\\', c] words = prepend ['\\'] (prepend [c] words) :=
            fun words => prepend_append ['\\'] [c] words
          simp [topWords, nextDepth, QuoteState.next, passes]
        · have plain : quotedChar c = [c] := by
            simp only [quotedChar, Bool.or_eq_true, decide_eq_true_eq, if_neg marked]
          obtain ⟨notQuote, notBackslash⟩ := not_or.mp marked
          rw [plain]
          simp [topWords, nextDepth, QuoteState.next, notQuote, notBackslash]
  have opens : topWords depth .outside ('\'' :: text.flatMap quotedChar ++ ['\''] ++ rest) =
      prepend ['\''] (topWords depth .inside (text.flatMap quotedChar ++ '\'' :: rest)) := by
    simp [topWords, nextDepth, QuoteState.next]
  rw [opens, scanned, ← prepend_append]
  simp

theorem quotedChar_injective {c d : Char} {rest rest' : List Char}
    (same : quotedChar c ++ rest = quotedChar d ++ rest') : c = d ∧ rest = rest' := by
  unfold quotedChar at same
  split at same <;> split at same
  · next escaped escaped' => simpa using same
  · next escaped plain =>
      simp only [List.cons_append, List.nil_append, List.cons.injEq] at same
      exact absurd (by simp [← same.1]) plain
  · next plain escaped =>
      simp only [List.cons_append, List.nil_append, List.cons.injEq] at same
      exact absurd (by simp [same.1]) plain
  · simpa using same

/-- Quoting loses nothing. -/
theorem flatMap_quotedChar_injective {text text' : List Char}
    (same : text.flatMap quotedChar = text'.flatMap quotedChar) : text = text' := by
  have nonempty : ∀ c rest, quotedChar c ++ rest ≠ [] := by
    intro c rest
    unfold quotedChar
    split <;> simp
  induction text generalizing text' with
  | nil =>
      cases text' with
      | nil => rfl
      | cons d text' => exact absurd same.symm (nonempty d _)
  | cons c text ih =>
      cases text' with
      | nil => exact absurd same (nonempty c _)
      | cons d text' =>
          obtain ⟨rfl, rest⟩ := quotedChar_injective same
          rw [ih rest]

theorem solid_unitText {value : Value} (isUnit : IsUnit value) :
    Solid depth (unitText value).toList := by
  cases isUnit with
  | boolean b => cases b <;> exact solid_of_all rfl
  | integer n =>
      exact solid_of_plain fun c mem =>
        isPlainChar_of_isNumeralChar ((isNumeral_toString n.toInt).2 c mem)
  | float placed => exact solid_limitText _
  | string s =>
      rw [unitText, String.toList_ofList]
      exact solid_quoted s.toList

/-- The words around a base are marks and limits. -/
theorem mem_wordsAround {bounds : Bounds} {base word : List Char}
    (mem : word ∈ wordsAround bounds base) :
    word = base ∨ word = ['=', '='] ∨ (∃ bound, word = (Bounds.belowMark bound).toList) ∨
      (∃ bound, word = (Bounds.aboveMark bound).toList) ∨
      ∃ x : Binary64, word = x.limitText.toList := by
  obtain ⟨_ | lower, _ | upper⟩ := bounds <;> simp only [wordsAround] at mem
  · exact .inl (List.mem_singleton.mp mem)
  · simp only [List.mem_cons, List.not_mem_nil, or_false] at mem
    rcases mem with rfl | rfl | rfl
    · exact .inl rfl
    · exact .inr (.inr (.inl ⟨upper, rfl⟩))
    · exact .inr (.inr (.inr (.inr ⟨_, rfl⟩)))
  · simp only [List.mem_cons, List.not_mem_nil, or_false] at mem
    rcases mem with rfl | rfl | rfl
    · exact .inl rfl
    · exact .inr (.inr (.inr (.inl ⟨lower, rfl⟩)))
    · exact .inr (.inr (.inr (.inr ⟨_, rfl⟩)))
  · split at mem <;> simp only [List.mem_cons, List.not_mem_nil, or_false] at mem
    · rcases mem with rfl | rfl | rfl
      · exact .inl rfl
      · exact .inr (.inl rfl)
      · exact .inr (.inr (.inr (.inr ⟨_, rfl⟩)))
    · rcases mem with rfl | rfl | rfl | rfl | rfl
      · exact .inr (.inr (.inr (.inr ⟨_, rfl⟩)))
      · exact .inr (.inr (.inl ⟨lower, rfl⟩))
      · exact .inl rfl
      · exact .inr (.inr (.inl ⟨upper, rfl⟩))
      · exact .inr (.inr (.inr (.inr ⟨_, rfl⟩)))

theorem solid_wordsAround {bounds : Bounds} {base : List Char} (solid : Solid depth base) :
    ∀ word ∈ wordsAround bounds base, Solid depth word := by
  intro word mem
  rcases mem_wordsAround mem with rfl | rfl | ⟨bound, rfl⟩ | ⟨bound, rfl⟩ | ⟨x, rfl⟩
  · exact solid
  · exact solid_of_all rfl
  · exact solid_belowMark bound
  · exact solid_aboveMark bound
  · exact solid_limitText x

theorem isUnion_of_not_isGrouped {descriptor : Descriptor} (single : descriptor.isGrouped = false) :
    descriptor.isUnion = false := by
  cases descriptor with
  | union members => cases single
  | _ => rfl

/-- A descriptor that stands alone as the element of an array has no limits. -/
theorem wordsAround_of_not_isGrouped {descriptor : Descriptor}
    (alone : descriptor.isGrouped = false) : memberWords descriptor = [descriptor.base] := by
  have empty : ∀ bounds : Bounds, bounds.isEmpty = true → ∀ base, wordsAround bounds base = [base] := by
    rintro ⟨lower, upper⟩ none base
    cases lower <;> cases upper <;> simp_all [Bounds.isEmpty, wordsAround]
  cases descriptor with
  | union members => cases alone
  | unknown => rfl
  | unit value => rfl
  | primitive kind subtype bounds =>
      exact empty bounds (by simpa [isGrouped] using alone) _
  | array element length =>
      exact empty length (by simpa [isGrouped] using alone) _

theorem text_of_not_isGrouped {descriptor : Descriptor} (alone : descriptor.isGrouped = false) :
    descriptor.text.toList = descriptor.base := by
  rw [toList_text_member (isUnion_of_not_isGrouped alone), wordsAround_of_not_isGrouped alone]
  simp [spaced]

theorem mem_intercalate {mark word : List Char} {groups : List (List (List Char))}
    (mem : word ∈ [mark].intercalate groups) : word = mark ∨ ∃ group ∈ groups, word ∈ group := by
  induction groups with
  | nil => simp at mem
  | cons group groups ih =>
      cases groups with
      | nil => exact .inr ⟨group, by simp, by simpa using mem⟩
      | cons other groups =>
          rw [List.intercalate_cons_cons, List.append_assoc, List.mem_append, List.mem_append]
            at mem
          rcases mem with first | middle | later
          · exact .inr ⟨group, by simp, first⟩
          · exact .inl (List.mem_singleton.mp middle)
          · rcases ih later with same | ⟨inner, known, inside⟩
            · exact .inl same
            · exact .inr ⟨inner, List.mem_cons_of_mem _ known, inside⟩

/-- The bases of well-formed descriptors are solid, and between parentheses so are their texts. -/
theorem solid_base_text {descriptor : Descriptor} (wellFormed : WellFormed descriptor) :
    (∀ depth, Solid depth descriptor.base) ∧
      ∀ depth, Solid (depth + 1) descriptor.text.toList := by
  have ofBase {descriptor : Descriptor} (single : descriptor.isUnion = false)
      (solid : ∀ depth, Solid depth descriptor.base) :
      (∀ depth, Solid depth descriptor.base) ∧
        ∀ depth, Solid (depth + 1) descriptor.text.toList := by
    refine ⟨solid, fun depth => ?_⟩
    rw [toList_text_member single]
    exact Solid.spaced (solid_wordsAround (solid (depth + 1)))
  induction wellFormed with
  | unknown => exact ofBase rfl fun depth => solid_of_all rfl
  | primitive refines bounded placed => exact ofBase rfl fun depth => solid_kindText _ _
  | unit isUnit => exact ofBase rfl fun depth => solid_unitText isUnit
  | @array element length inside placed ih =>
      refine ofBase rfl fun depth => ?_
      have marks : Solid depth ['[', ']'] := solid_of_all rfl
      rw [base_array]
      split
      · have parts : '(' :: element.text.toList ++ [')', '[', ']'] =
            ('(' :: element.text.toList ++ [')']) ++ ['[', ']'] := by simp
        rw [parts]
        exact (solid_parens (ih.2 depth)).append marks
      · next alone =>
          rw [Bool.not_eq_true] at alone
          rw [text_of_not_isGrouped alone]
          exact (ih.1 depth).append marks
  | @union members several flat inside ih =>
      refine ⟨fun depth => solid_nil, fun depth => ?_⟩
      rw [toList_text (.union several flat inside)]
      refine Solid.spaced fun word mem => ?_
      rcases mem_intercalate mem with rfl | ⟨group, known, inGroup⟩
      · exact solid_of_all rfl
      · obtain ⟨member, there, rfl⟩ := List.mem_map.mp known
        exact solid_wordsAround ((ih member there).1 (depth + 1)) word inGroup

/-- All words of a well-formed descriptor are solid. -/
theorem solid_wordsOf {descriptor : Descriptor} (wellFormed : WellFormed descriptor) :
    ∀ word ∈ wordsOf descriptor, Solid 0 word := by
  have single : ∀ member, WellFormed member → ∀ word ∈ memberWords member, Solid 0 word :=
    fun member known => solid_wordsAround ((solid_base_text known).1 0)
  cases wellFormed with
  | union several flat inside =>
      intro word mem
      rcases mem_intercalate mem with rfl | ⟨group, known, inGroup⟩
      · exact solid_of_all rfl
      · obtain ⟨member, there, rfl⟩ := List.mem_map.mp known
        exact single member (inside member there) word inGroup
  | unknown => exact single _ .unknown
  | primitive refines bounded placed => exact single _ (.primitive refines bounded placed)
  | unit isUnit => exact single _ (.unit isUnit)
  | array inside placed => exact single _ (.array inside placed)

theorem memberWords_ne_nil (descriptor : Descriptor) : memberWords descriptor ≠ [] :=
  wordsAround_ne_nil _ _

theorem wordsOf_ne_nil {descriptor : Descriptor} (wellFormed : WellFormed descriptor) :
    wordsOf descriptor ≠ [] := by
  cases wellFormed with
  | @union members several flat inside =>
      obtain ⟨first, members, rfl⟩ := List.exists_cons_of_ne_nil
        (show members ≠ [] by rintro rfl; simp at several)
      cases members with
      | nil => simp at several
      | cons second members =>
          simp [wordsOf, List.intercalate_cons_cons, memberWords_ne_nil first]
  | unknown => exact memberWords_ne_nil .unknown
  | primitive refines bounded placed => exact memberWords_ne_nil (.primitive _ _ _)
  | unit isUnit => exact memberWords_ne_nil (.unit _)
  | array inside placed => exact memberWords_ne_nil (.array _ _)

/-- The text of a well-formed descriptor determines its words. -/
theorem wordsOf_eq_of_text_eq {descriptor other : Descriptor} (wellFormed : WellFormed descriptor)
    (wellFormed' : WellFormed other) (same : descriptor.text = other.text) :
    wordsOf descriptor = wordsOf other := by
  rw [← topWords_spaced (wordsOf_ne_nil wellFormed) (solid_wordsOf wellFormed),
    ← topWords_spaced (wordsOf_ne_nil wellFormed') (solid_wordsOf wellFormed'),
    ← toList_text wellFormed, ← toList_text wellFormed', same]

end Mixfix.Descriptor
