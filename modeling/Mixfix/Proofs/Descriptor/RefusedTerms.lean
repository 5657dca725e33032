import Mixfix.Proofs.Descriptor.Unions

/-!
# Illegible terms are refused

What is not legible is not read as a term. At the word for an infinity the readers fail, where a number
has to stand (`fails_readNumber`) as well as where a base has to (`refusesBase_infinity`). In front of
array marks a number is taken for the whole term, and the reader stops there (`refuses_number`). So a
reader refuses a text if it fails, or stops in front of an array mark (`Refuses`), and a descriptor
that is no union and not legible is refused as a term (`isRefusedTerm`): wherever its limits are
written (`Layout`), a limit is infinite, its base is refused, or a number stands in front.
-/

set_option autoImplicit false

namespace Mixfix.Descriptor

variable {descriptor again : Descriptor} {cursor : Cursor} {text base behind : List Char}
  {depth : Nat}

/-- A reader fails where a text stands. -/
def Fails {α : Type} (reader : Reader α) (text behind : List Char) : Prop :=
  ∀ cursor, ahead cursor = text ++ behind → ∃ stop, reader cursor = .error stop

/-- A reader fails where a text stands, or it stops in front of an array mark. -/
def Refuses {α : Type} (reader : Reader α) (text behind : List Char) : Prop :=
  ∀ cursor, ahead cursor = text ++ behind → (∃ stop, reader cursor = .error stop) ∨
    ∃ result next, reader cursor = .ok (result, next) ∧ (ahead next).head? = some '['

theorem Fails.refuses {α : Type} {reader : Reader α} (fails : Fails reader text behind) :
    Refuses reader text behind :=
  fun cursor written => .inl (fails cursor written)

theorem Fails.append {α : Type} {reader : Reader α} {more : List Char}
    (fails : Fails reader text (more ++ behind)) : Fails reader (text ++ more) behind :=
  fun cursor written => fails cursor (by rw [written, List.append_assoc])

/-! ## Infinities -/

/-- The word for an infinity is no number. -/
theorem fails_readNumber {x : Binary64} (placed : x ≠ .nan) (infinite : x.isFinite = false)
    (written : cursor.rest = x.limitText.toList ++ behind) :
    ∃ stop, readNumber cursor = .error stop := by
  refine ⟨⟨cursor.offset, .invalidNumber⟩, ?_⟩
  rcases Binary64.limitText_of_infinite placed infinite with same | same <;>
    rw [same] at written <;> simp only [readNumber, written] <;> rfl

/-! ## Bases -/

/-- The reader of bases fails where a base stands. -/
def RefusesBase (depth : Nat) (base : List Char) : Prop :=
  ∀ behind, EndsBase behind → Fails (readPrimary (readUnion depth)) base behind

/-- The text of a descriptor is refused, with parentheses as deep as the text is long. -/
def IsRefused (descriptor : Descriptor) : Prop :=
  ∀ depth, descriptor.text.toList.length ≤ depth →
    ∀ behind, Closes behind → Refuses (readUnion (depth + 1)) descriptor.text.toList behind

/-- The base of a descriptor is refused. -/
def IsRefusedBase (descriptor : Descriptor) : Prop :=
  ∀ depth, descriptor.base.length ≤ depth → RefusesBase depth descriptor.base

theorem RefusesBase.fails (refuses : RefusesBase depth base) (ends : EndsBase behind) :
    Fails (readBase (readUnion depth)) base behind := by
  intro cursor written
  obtain ⟨stop, failed⟩ := refuses behind ends cursor written
  exact ⟨stop, by simp only [readBase, failed, bind, Except.bind]⟩

/-- The word for an infinity is no base. -/
theorem refusesBase_infinity {x : Binary64} (placed : x ≠ .nan) (infinite : x.isFinite = false)
    (depth : Nat) : RefusesBase depth x.limitText.toList := by
  intro behind ends cursor written
  rcases Binary64.limitText_of_infinite placed infinite with same | same <;> rw [same] at written
  · have unknown : ofWord "inf".toList = .error (.unknownType "inf") := rfl
    rw [readPrimary_eq_word (by decide) (by decide) written ends, unknown]
    exact ⟨_, rfl⟩
  · have minus : (skipSpace cursor).rest = '-' :: 'i' :: 'n' :: 'f' :: behind := written
    have noNumber : startsNumber (skipSpace cursor) = false := by
      rw [startsNumber, minus]
      rfl
    simp only [readPrimary, minus, noNumber]
    exact ⟨_, rfl⟩

/-- The base of an array is refused with the text of its element, if this one is grouped. -/
theorem isRefusedBase_grouped {element : Descriptor} (length : Bounds)
    (wellFormed : WellFormed element) (grouped : element.isGrouped = true)
    (refused : IsRefused element) : IsRefusedBase (.array element length) := by
  intro depth deep behind ends cursor written
  rw [base_array, if_pos grouped] at deep written
  simp only [List.length_append, List.length_cons, List.length_nil] at deep
  -- the parentheses leave room for one depth less
  obtain ⟨enclosed, rfl⟩ : ∃ enclosed, depth = enclosed + 1 := ⟨depth - 1, by omega⟩
  have written : (skipSpace cursor).rest =
      '(' :: (element.text.toList ++ ')' :: (['[', ']'] ++ behind)) := by
    rw [← ahead, written]
    simp
  have inside : ahead ((skipSpace cursor).advance 1) =
      element.text.toList ++ ')' :: (['[', ']'] ++ behind) := by
    rw [ahead_eq, Cursor.advance, written]
    exact ((begins_text wellFormed).append _).dropSpace
  rcases refused enclosed (by omega) _ (.inr ⟨_, rfl⟩) _ inside with
    ⟨stop, failed⟩ | ⟨result, next, read, mark⟩
  · exact ⟨stop, by simp only [readPrimary, written, if_true, failed, bind, Except.bind]⟩
  · have unclosed : eat? [')'] next = none := eat?_eq_none (by simp [mark])
    refine ⟨⟨(skipSpace next).offset, .unclosed⟩, ?_⟩
    simp only [readPrimary, written, if_true, read, bind, Except.bind, unclosed]
    rfl

/-- The base of an array is refused with the base of its element, if this one is not grouped. -/
theorem isRefusedBase_alone {element : Descriptor} (length : Bounds)
    (alone : element.isGrouped = false) (refused : IsRefusedBase element) :
    IsRefusedBase (.array element length) := by
  intro depth deep behind ends
  have written : base (.array element length) = element.base ++ ['[', ']'] := by
    rw [base_array, alone, text_of_not_isGrouped alone]
    rfl
  rw [written, List.length_append] at deep
  rw [written]
  exact (refused depth (Nat.le_of_add_right_le deep) _ (by rfl)).append

/-! ## Terms -/

section Readers

variable {inner : Reader Descriptor} {limit more : List Char}

theorem fails_plain (opens : OpensBase base) (fails : Fails (readBase inner) base behind) :
    Fails (readTerm inner) base behind := by
  intro cursor written
  obtain ⟨stop, failed⟩ := fails (skipSpace cursor) (by rw [ahead_skipSpace, written])
  refine ⟨stop, ?_⟩
  simp only [readTerm, opens _ _ written, Bool.false_eq_true, if_false, failed, bind, Except.bind]

/-- Where the limit behind a base is no number, the term is none. -/
theorem fails_limited {mark : Mark} {x : Binary64} (opens : OpensBase base)
    (reads : Reads (readBase inner) base
      (' ' :: (mark.text ++ ' ' :: (x.limitText.toList ++ behind))) again)
    (placed : x ≠ .nan) (infinite : x.isFinite = false) :
    Fails (readTerm inner) (base ++ ' ' :: (mark.text ++ ' ' :: x.limitText.toList)) behind := by
  intro cursor written
  have written : ahead cursor =
      base ++ ' ' :: (mark.text ++ ' ' :: (x.limitText.toList ++ behind)) := by
    rw [written]
    simp
  obtain ⟨next, after, read, marked, number⟩ :=
    reads_to_limit (begins_of_isNumeral x.isNumeral_limitText) reads
      ((ahead_skipSpace cursor).trans written)
  obtain ⟨stop, failed⟩ := fails_readNumber placed infinite number
  refine ⟨stop, ?_⟩
  simp only [readTerm, opens _ _ written, Bool.false_eq_true, if_false, read, bind, Except.bind,
    marked, failed]

/-- A range fails where what stands behind its lower limit does. -/
theorem fails_range {lower : List Char} {first : Number} {below : Bool} (begins : Begins more)
    (isLower : IsNumberText lower) (foundLower : numberOf? lower = some first)
    (fails : ∀ bound, Fails (readRange inner bound) more behind) :
    Fails (readTerm inner) (lower ++ ' ' :: ((rangeMark below).text ++ ' ' :: more)) behind := by
  intro cursor written
  have written : ahead cursor =
      lower ++ ' ' :: ((rangeMark below).text ++ ' ' :: (more ++ behind)) := by
    rw [written]
    simp
  obtain ⟨next, after, starts, read, marked, ahead⟩ :=
    reads_from_limit (begins.append _) isLower foundLower written
  obtain ⟨less, inclusive⟩ := rangeMark_spec below
  obtain ⟨stop, failed⟩ := fails ⟨first.limit, below⟩ after ahead
  refine ⟨stop, ?_⟩
  simp only [readTerm, starts, if_true, read, bind, Except.bind, marked, less, inclusive, failed]

theorem fails_readRange_base {bound : Bound} (fails : Fails (readBase inner) base behind) :
    Fails (readRange inner bound) base behind := by
  intro cursor written
  obtain ⟨stop, failed⟩ := fails cursor written
  exact ⟨stop, by simp only [readRange, failed, bind, Except.bind]⟩

/-- Where the upper limit of a range is no number, the range is none. -/
theorem fails_readRange_upper {bound : Bound} {x : Binary64} {above : Bool}
    (reads : Reads (readBase inner) base
      (' ' :: ((rangeMark above).text ++ ' ' :: (x.limitText.toList ++ behind))) again)
    (placed : x ≠ .nan) (infinite : x.isFinite = false) :
    Fails (readRange inner bound)
      (base ++ ' ' :: ((rangeMark above).text ++ ' ' :: x.limitText.toList)) behind := by
  intro cursor written
  have written : ahead cursor =
      base ++ ' ' :: ((rangeMark above).text ++ ' ' :: (x.limitText.toList ++ behind)) := by
    rw [written]
    simp
  obtain ⟨next, after, read, marked, number⟩ :=
    reads_to_limit (begins_of_isNumeral x.isNumeral_limitText) reads written
  obtain ⟨less, inclusive⟩ := rangeMark_spec above
  obtain ⟨stop, failed⟩ := fails_readNumber placed infinite number
  -- the limit below is added first, and may not be possible either
  cases limited : Descriptor.limit .lower bound again with
  | error reason =>
      refine ⟨⟨next.offset, reason⟩, ?_⟩
      simp only [readRange, read, bind, Except.bind, limited, Descriptor.placed, Descriptor.stop]
  | ok middle =>
      refine ⟨stop, ?_⟩
      simp only [readRange, read, bind, Except.bind, limited, Descriptor.placed, marked, less,
        if_true, failed]

/-- In front of an array mark a number is taken for the whole term. -/
theorem refuses_number {number : Number} (isNumber : IsNumberText text)
    (found : numberOf? text = some number) :
    Refuses (readTerm inner) (text ++ '[' :: more) behind := by
  intro cursor written
  rw [List.append_assoc] at written
  obtain ⟨next, read, rest⟩ := readNumber_written isNumber found written (by rfl)
  have starts := isNumber.startsNumber written
  have mark : Begins ('[' :: (more ++ behind)) := ⟨'[', _, rfl, by decide⟩
  have ahead : ahead next = '[' :: (more ++ behind) := by
    rw [ahead_eq, rest]
    exact mark.dropSpace
  have unmarked : readMark? (skipSpace next) = none := by
    have rest : (skipSpace next).rest = '[' :: (more ++ behind) := ahead
    simp [readMark?, Mark.all, Cursor.strip?, rest]
  refine .inr ⟨.unit number.value, skipSpace next, ?_, by rw [ahead_skipSpace, ahead]; rfl⟩
  simp only [readTerm, starts, if_true, read, bind, Except.bind, unmarked]

end Readers

theorem isPlaced_limits (wellFormed : WellFormed descriptor) : descriptor.limits.IsPlaced := by
  cases wellFormed with
  | primitive refines bounded placed => exact placed
  | array inside placed => exact placed
  | _ => exact isPlaced_none

theorem isFinite_eq_of_eq {x y : Binary64} (same : x.eq y = true) : x.isFinite = y.isFinite := by
  cases x with
  | nan => cases same
  | signed negative rank bounded =>
      cases y with
      | nan => cases same
      | signed negative' rank' bounded' =>
          obtain ⟨rfl, -⟩ := Binary64.eq_signed_iff.mp same
          rfl

/-- How a descriptor that is no union is written: without limits, with one behind its base, or between
two of them. -/
inductive Layout (descriptor : Descriptor) : Prop
  | plain (limits : descriptor.limits = .none) (text : descriptor.text.toList = descriptor.base)
  | limited (mark : Mark) (x : Binary64) (noRange : descriptor.limits.isRange = false)
      (placed : x ≠ .nan) (finite : descriptor.limits.isFinite = x.isFinite)
      (text : descriptor.text.toList =
        descriptor.base ++ ' ' :: (mark.text ++ ' ' :: x.limitText.toList))
  | range (lower upper : Bound) (limits : descriptor.limits = ⟨some lower, some upper⟩)
      (isRange : descriptor.limits.isRange = true)
      (text : descriptor.text.toList =
        lower.limit.limitText.toList ++ ' ' :: ((rangeMark lower.inclusive).text ++ ' ' ::
          (descriptor.base ++ ' ' :: ((rangeMark upper.inclusive).text ++ ' ' ::
            upper.limit.limitText.toList))))

theorem layout (single : descriptor.isUnion = false) (placed : descriptor.limits.IsPlaced) :
    Layout descriptor := by
  have text := toList_text_member single
  rw [memberWords] at text
  cases limits : descriptor.limits with
  | mk lower upper =>
      rw [limits] at text placed
      cases lower with
      | none =>
          cases upper with
          | none => exact .plain limits (by simpa [wordsAround, spaced] using text)
          | some upper =>
              refine .limited (rangeMark upper.inclusive) upper.limit (limits ▸ rfl)
                (placed.2 upper rfl) (by simp [limits, Bounds.isFinite]) ?_
              rw [text, ← rangeMark_text, ← spaced_three]
              rfl
      | some lower =>
          cases upper with
          | none =>
              refine .limited (floorMark lower.inclusive) lower.limit (limits ▸ rfl)
                (placed.1 lower rfl) (by simp [limits, Bounds.isFinite]) ?_
              rw [text, ← floorMark_text, ← spaced_three]
              rfl
          | some upper =>
              by_cases point : (lower.same upper && lower.inclusive) = true
              · have equal : lower.limit.eq upper.limit = true := by
                  simp only [Bound.same, Bool.and_eq_true] at point
                  exact point.1.1
                refine .limited .equal lower.limit (by simp [limits, Bounds.isRange, point])
                  (placed.1 lower rfl) (by simp [limits, Bounds.isFinite, isFinite_eq_of_eq equal]) ?_
                simp only [text, wordsAround, if_pos point, spaced_three]
                rfl
              · refine .range lower upper limits (by simp [limits, Bounds.isRange, point]) ?_
                simp only [text, wordsAround, if_neg point, rangeMark_text]
                rw [spaced_cons_cons, spaced_cons_cons, spaced_three]

/-- A base that starts with a number is a finite number, or array marks follow the number. -/
theorem exists_number_of_startsWithNumber (wellFormed : WellFormed descriptor)
    (starts : descriptor.startsWithNumber = true) :
    ∃ text tail number, descriptor.base = text ++ tail ∧ IsNumberText text ∧
      numberOf? text = some number ∧
        (descriptor.isNumeral = true ∧ tail = [] ∨ ∃ rest, tail = '[' :: rest) := by
  induction wellFormed with
  | unknown => cases starts
  | primitive refines bounded placed => cases starts
  | @unit value isUnit =>
      have numeral : isNumeral (.unit value) = true := by cases isUnit <;> exact starts
      obtain ⟨number, isNumber, found, -⟩ := exists_number numeral
      exact ⟨_, [], number, (List.append_nil _).symm, isNumber, found, .inl ⟨numeral, rfl⟩⟩
  | @array element length inside placed ih =>
      rw [startsWithNumber, Bool.and_eq_true, Bool.not_eq_true'] at starts
      obtain ⟨text, tail, number, same, isNumber, found, ends⟩ := ih starts.2
      have base : base (.array element length) = text ++ (tail ++ ['[', ']']) := by
        rw [base_array, starts.1, text_of_not_isGrouped starts.1, same, ← List.append_assoc]
        rfl
      refine ⟨text, _, number, base, isNumber, found, .inr ?_⟩
      rcases ends with ⟨-, rfl⟩ | ⟨rest, rfl⟩
      · exact ⟨_, rfl⟩
      · exact ⟨_, rfl⟩
  | union several flat inside => cases starts

/-- The text of a descriptor is refused as a term. -/
def IsRefusedTerm (descriptor : Descriptor) : Prop :=
  ∀ depth, descriptor.text.toList.length ≤ depth →
    ∀ behind, EndsTerm behind → Refuses (readTerm (readUnion depth)) descriptor.text.toList behind

/-- A base that starts with a number is refused without a range around it, unless it is the number. -/
theorem refuses_of_startsWithNumber {inner : Reader Descriptor}
    (wellFormed : WellFormed descriptor) (starts : descriptor.startsWithNumber = true)
    (noNumeral : descriptor.isNumeral = false) (tail : List Char) :
    Refuses (readTerm inner) (descriptor.base ++ tail) behind := by
  obtain ⟨text, marks, number, same, isNumber, found, ends⟩ :=
    exists_number_of_startsWithNumber wellFormed starts
  rcases ends with ⟨numeral, -⟩ | ⟨rest, rfl⟩
  · rw [noNumeral] at numeral
    cases numeral
  · rw [same, List.append_assoc]
    exact refuses_number isNumber found

theorem isLegible_of_isNumeral (numeral : descriptor.isNumeral = true) :
    descriptor.isLegible = true := by
  cases descriptor with
  | unit value => cases value <;> first | rfl | exact numeral
  | _ => cases numeral

/-- A base that is refused is refused as a term with a limit behind it or none. -/
theorem refuses_of_base {tail : List Char} (opens : OpensBase base)
    (refused : RefusesBase depth base) (ends : EndsBase (tail ++ behind)) :
    Refuses (readTerm (readUnion depth)) (base ++ tail) behind :=
  (fails_plain opens (refused.fails ends)).append.refuses

/-- A descriptor with its base between limits is refused as a term if one of the limits is infinite or
the base is refused. -/
theorem refuses_range {lower upper : Bound} {below above : Bool} (begins : Begins base)
    (placed : lower.limit ≠ .nan) (placed' : upper.limit ≠ .nan)
    (illegible : lower.limit.isFinite = true →
      RefusesBase depth base ∨ upper.limit.isFinite = false ∧
        ∃ again, ReadsBase depth base again) :
    Refuses (readTerm (readUnion depth)) (lower.limit.limitText.toList ++
      ' ' :: ((rangeMark below).text ++ ' ' :: (base ++ ' ' :: ((rangeMark above).text ++ ' ' ::
        upper.limit.limitText.toList)))) behind := by
  cases finite : lower.limit.isFinite with
  | false =>
      exact refuses_of_base (opensBase_infinity placed finite)
        (refusesBase_infinity placed finite depth) (by rfl)
  | true =>
      obtain ⟨number, isLower, foundLower, -⟩ := exists_limit finite
      refine (fails_range (begins.append _) isLower foundLower fun bound => ?_).refuses
      rcases illegible finite with refused | ⟨infinite, again, reads⟩
      · exact (fails_readRange_base (refused.fails (by rfl))).append
      · exact fails_readRange_upper (reads_before_mark _ reads) placed' infinite

/-- A descriptor that is no union and not legible is refused as a term. -/
theorem isRefusedTerm (wellFormed : WellFormed descriptor) (single : descriptor.isUnion = false)
    (illegible : descriptor.isLegible = false)
    (readable : descriptor.hasLegibleBase = true → IsReadableBase descriptor)
    (refused : descriptor.hasLegibleBase = false → IsRefusedBase descriptor) :
    IsRefusedTerm descriptor := by
  intro depth deep behind ends
  have noNumeral : descriptor.isNumeral = false := by
    rw [Bool.eq_false_iff]
    intro numeral
    rw [isLegible_of_isNumeral numeral] at illegible
    cases illegible
  have illegible : ¬ (_ ∧ _ ∧ _) := fun legible =>
    Bool.false_ne_true (illegible.symm.trans ((isLegible_iff single).mpr legible))
  have placed := isPlaced_limits wellFormed
  cases layout single placed with
  | plain limits text =>
      rw [text, ← List.append_nil descriptor.base]
      rw [text] at deep
      cases starts : descriptor.startsWithNumber with
      | true => exact refuses_of_startsWithNumber wellFormed starts noNumeral []
      | false =>
          have noBase : descriptor.hasLegibleBase = false := by
            rw [Bool.eq_false_iff]
            exact fun legible => illegible ⟨limits ▸ rfl, legible, .inr (.inr starts)⟩
          exact refuses_of_base (opensBase_base wellFormed single starts)
            (refused noBase depth deep) ends.endsBase
  | limited mark x noRange placed finite text =>
      rw [text] at deep ⊢
      rw [List.length_append] at deep
      have deep := Nat.le_of_add_right_le deep
      cases starts : descriptor.startsWithNumber with
      | true => exact refuses_of_startsWithNumber wellFormed starts noNumeral _
      | false =>
          have opens := opensBase_base wellFormed single starts
          cases legible : descriptor.hasLegibleBase with
          | false => exact refuses_of_base opens (refused legible depth deep) (by rfl)
          | true =>
              obtain ⟨again, -, reads⟩ := readable legible
              have infinite : x.isFinite = false := by
                rw [← finite, Bool.eq_false_iff]
                exact fun finite => illegible ⟨finite, legible, .inr (.inr starts)⟩
              exact (fails_limited opens (reads_before_mark mark (reads depth deep)) placed
                infinite).refuses
  | range lower upper limits isRange text =>
      rw [text] at deep ⊢
      simp only [List.length_append, List.length_cons] at deep
      rw [limits] at placed
      refine refuses_range ((begins_base_text wellFormed).1 single) (placed.1 lower rfl)
        (placed.2 upper rfl) fun finite => ?_
      cases legible : descriptor.hasLegibleBase with
      | false => exact .inl (refused legible depth (by omega))
      | true =>
          obtain ⟨again, -, reads⟩ := readable legible
          refine .inr ⟨?_, again, reads depth (by omega)⟩
          rw [Bool.eq_false_iff]
          intro finite'
          refine illegible ⟨?_, legible, .inl isRange⟩
          rw [limits]
          simp [Bounds.isFinite, finite, finite']

end Mixfix.Descriptor
