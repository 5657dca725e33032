import Mixfix.Proofs.Binary64.Equality
import Mixfix.Proofs.Descriptor.Bases

/-!
# Terms are read back

A term is a number, a base, a base with a limit behind it, or a base between two limits. The reader
looks at the first character to tell whether a number stands in front, so a base without a range
around it must not start with one (`opensBase_base`); this is where an array of a single number is
lost. Each of the four forms is read back (`reads_number`, `reads_plain`, `reads_limited`,
`reads_range`), with limits that are equal to the ones written.
-/

set_option autoImplicit false

namespace Mixfix.Descriptor

open Unicode (isAsciiDigit)

/-- How a mark is written. -/
def Mark.text : Mark → List Char
  | .less => ['<']
  | .lessEqual => ['<', '=']
  | .greater => ['>']
  | .greaterEqual => ['>', '=']
  | .equal => ['=', '=']

variable {descriptor again : Descriptor} {cursor : Cursor} {text behind : List Char}

theorem readMark?_written {mark : Mark} (written : cursor.rest = mark.text ++ ' ' :: behind) :
    ∃ next, readMark? cursor = some (mark, next) ∧ next.rest = ' ' :: behind := by
  refine ⟨cursor.advance mark.text.length, ?_, ?_⟩
  · cases mark <;> simp [readMark?, Mark.all, Cursor.strip?, written, Mark.text]
  · rw [Cursor.advance, written, List.drop_left]

theorem begins_mark (mark : Mark) (behind : List Char) : Begins (mark.text ++ behind) := by
  cases mark <;> exact ⟨_, _, rfl, by decide⟩

/-- Behind a term a bar follows, or the union ends. -/
def EndsTerm (behind : List Char) : Prop := Closes behind ∨ ∃ rest, behind = ' ' :: '|' :: rest

theorem EndsTerm.endsBase (ends : EndsTerm behind) : EndsBase behind := by
  rcases ends with (rfl | ⟨rest, rfl⟩) | ⟨rest, rfl⟩ <;> rfl

theorem EndsTerm.unmarked (ends : EndsTerm behind) : (dropSpace behind).head? ≠ some '[' := by
  rcases ends with (rfl | ⟨rest, rfl⟩) | ⟨rest, rfl⟩
  · decide
  · have closing : Begins (')' :: rest) := ⟨')', rest, rfl, by decide⟩
    simp [closing.dropSpace]
  · have bar : Begins ('|' :: rest) := ⟨'|', rest, rfl, by decide⟩
    simp [bar.dropSpace_space]

theorem EndsTerm.readMark? (ends : EndsTerm behind) (written : cursor.rest = dropSpace behind) :
    readMark? cursor = none := by
  have none : ∀ c rest, cursor.rest = c :: rest → c = ')' ∨ c = '|' →
      Descriptor.readMark? cursor = none := by
    rintro c rest first (rfl | rfl) <;>
      simp [Descriptor.readMark?, Mark.all, Cursor.strip?, first]
  rcases ends with (rfl | ⟨rest, rfl⟩) | ⟨rest, rfl⟩
  · have empty : cursor.rest = [] := written
    simp [Descriptor.readMark?, Mark.all, Cursor.strip?, empty]
  · have closing : Begins (')' :: rest) := ⟨')', rest, rfl, by decide⟩
    exact none _ _ (written.trans closing.dropSpace) (.inl rfl)
  · have bar : Begins ('|' :: rest) := ⟨'|', rest, rfl, by decide⟩
    exact none _ _ (written.trans bar.dropSpace_space) (.inr rfl)

section Readers

variable {inner : Reader Descriptor} {base limit : List Char} {number : Number}

/-- A single number is a term. -/
theorem reads_number (isNumber : IsNumberText text) (found : numberOf? text = some number)
    (ends : EndsTerm behind) : Reads (readTerm inner) text behind (.unit number.value) := by
  intro cursor written
  obtain ⟨next, read, rest⟩ := readNumber_written isNumber found written
    (ends.endsBase.outside isNumberChar (by decide))
  have starts := isNumber.startsNumber written
  have behind := ahead_eq next
  rw [rest] at behind
  refine ⟨skipSpace next, ?_, by rw [ahead_skipSpace, behind]⟩
  simp only [readTerm, starts, if_true, read, bind, Except.bind, ends.readMark? behind]

/-- A text that starts with no number, whatever follows. -/
def OpensBase (text : List Char) : Prop :=
  ∀ (behind : List Char) (cursor : Cursor), cursor.rest = text ++ behind →
    startsNumber cursor = false

theorem opensBase_cons {c : Char} (notDigit : isAsciiDigit c = false) (notMinus : c ≠ '-')
    (rest : List Char) : OpensBase (c :: rest) := by
  intro behind cursor written
  rw [startsNumber, written, List.cons_append]
  split
  · next same => exact absurd (List.cons.inj same).1 notMinus
  · next same => exact (List.cons.inj same).1 ▸ notDigit
  · rfl

theorem OpensBase.append (opens : OpensBase text) (more : List Char) :
    OpensBase (text ++ more) := by
  intro behind cursor written
  exact opens (more ++ behind) cursor (by rw [written, List.append_assoc])

/-- A base without limits is a term. -/
theorem reads_plain (opens : OpensBase base) (reads : Reads (readBase inner) base behind again)
    (ends : EndsTerm behind) : Reads (readTerm inner) base behind again := by
  intro cursor written
  obtain ⟨next, read, rest⟩ := reads (skipSpace cursor) (by rw [ahead_skipSpace, written])
  refine ⟨skipSpace next, ?_, by rw [ahead_skipSpace, rest]⟩
  simp only [readTerm, opens _ _ written, Bool.false_eq_true, if_false, read, bind,
    Except.bind, ends.readMark? rest]

/-- A base with a limit behind it is read up to the limit. -/
theorem reads_to_limit {mark : Mark} (begins : Begins limit)
    (reads : Reads (readBase inner) base (' ' :: (mark.text ++ ' ' :: (limit ++ behind))) again)
    (written : ahead cursor = base ++ ' ' :: (mark.text ++ ' ' :: (limit ++ behind))) :
    ∃ next after, readBase inner cursor = .ok (again, next) ∧
      readMark? (skipSpace next) = some (mark, after) ∧ (skipSpace after).rest = limit ++ behind := by
  obtain ⟨next, read, rest⟩ := reads cursor written
  rw [(begins_mark _ _).dropSpace_space] at rest
  obtain ⟨after, marked, spaced⟩ := readMark?_written rest
  refine ⟨next, after, read, marked, ?_⟩
  rw [← ahead, ahead_eq, spaced, (begins.append behind).dropSpace_space]

/-- A base with a limit behind it is a term. -/
theorem reads_limited {mark : Mark} {limited : Descriptor} (opens : OpensBase base)
    (reads : Reads (readBase inner) base (' ' :: (mark.text ++ ' ' :: (limit ++ behind))) again)
    (isNumber : IsNumberText limit) (found : numberOf? limit = some number)
    (bounded : limitBehind mark number.limit again = .ok limited) (ends : EndsTerm behind) :
    Reads (readTerm inner) (base ++ ' ' :: (mark.text ++ ' ' :: limit)) behind limited := by
  intro cursor written
  have written : ahead cursor = base ++ ' ' :: (mark.text ++ ' ' :: (limit ++ behind)) := by
    rw [written]
    simp
  obtain ⟨next, after, read, marked, number⟩ := reads_to_limit isNumber.begins reads
    ((ahead_skipSpace cursor).trans written)
  obtain ⟨last, readLimit, rest⟩ := readNumber_written isNumber found number
    (ends.endsBase.outside isNumberChar (by decide))
  refine ⟨last, ?_, by rw [ahead_eq, rest]⟩
  simp only [readTerm, opens _ _ written, Bool.false_eq_true, if_false, read, bind,
    Except.bind, marked, readLimit, bounded, placed]

/-- The mark before an upper limit, and behind the lower limit of a range. -/
def rangeMark (inclusive : Bool) : Mark := if inclusive then .lessEqual else .less

/-- The mark before a lower limit behind its base. -/
def floorMark (inclusive : Bool) : Mark := if inclusive then .greaterEqual else .greater

theorem rangeMark_text (bound : Bound) :
    (Bounds.belowMark bound).toList = (rangeMark bound.inclusive).text := by
  rw [belowMark_toList, rangeMark]
  split <;> rfl

theorem floorMark_text (bound : Bound) :
    (Bounds.aboveMark bound).toList = (floorMark bound.inclusive).text := by
  rw [aboveMark_toList, floorMark]
  split <;> rfl

theorem rangeMark_spec (inclusive : Bool) :
    (rangeMark inclusive = .less || rangeMark inclusive = .lessEqual) = true ∧
      (rangeMark inclusive == .lessEqual) = inclusive := by
  cases inclusive <;> decide

/-- A number with a mark behind it is read up to what follows. -/
theorem reads_from_limit {more : List Char} {below : Bool} (begins : Begins more)
    (isNumber : IsNumberText limit) (found : numberOf? limit = some number)
    (written : ahead cursor = limit ++ ' ' :: ((rangeMark below).text ++ ' ' :: more)) :
    ∃ next after, startsNumber (skipSpace cursor) = true ∧
      readNumber (skipSpace cursor) = .ok (number, next) ∧
      readMark? (skipSpace next) = some (rangeMark below, after) ∧ ahead after = more := by
  obtain ⟨next, read, rest⟩ := readNumber_written isNumber found written (by rfl)
  have mark : (skipSpace next).rest = (rangeMark below).text ++ ' ' :: more := by
    rw [← ahead, ahead_eq, rest, (begins_mark _ _).dropSpace_space]
  obtain ⟨after, marked, spaced⟩ := readMark?_written mark
  refine ⟨next, after, isNumber.startsNumber written, read, marked, ?_⟩
  rw [ahead_eq, spaced, begins.dropSpace_space]

/-- A base between two limits is a term. -/
theorem reads_range {lower upper : List Char} {first second : Number} {below above : Bool}
    {middle limited : Descriptor} (begins : Begins base)
    (reads : Reads (readBase inner) base
      (' ' :: ((rangeMark above).text ++ ' ' :: (upper ++ behind))) again)
    (isLower : IsNumberText lower) (foundLower : numberOf? lower = some first)
    (isUpper : IsNumberText upper) (foundUpper : numberOf? upper = some second)
    (boundedBelow : Descriptor.limit .lower ⟨first.limit, below⟩ again = .ok middle)
    (boundedAbove : Descriptor.limit .upper ⟨second.limit, above⟩ middle = .ok limited)
    (ends : EndsTerm behind) :
    Reads (readTerm inner) (lower ++ ' ' :: ((rangeMark below).text ++ ' ' ::
      (base ++ ' ' :: ((rangeMark above).text ++ ' ' :: upper)))) behind limited := by
  intro cursor written
  have written : ahead cursor = lower ++ ' ' :: ((rangeMark below).text ++ ' ' ::
      (base ++ ' ' :: ((rangeMark above).text ++ ' ' :: (upper ++ behind)))) := by
    rw [written]
    simp
  obtain ⟨next, after, starts, read, marked, ahead⟩ :=
    reads_from_limit (begins.append _) isLower foundLower written
  obtain ⟨next', after', readBase, marked', number⟩ := reads_to_limit isUpper.begins reads ahead
  obtain ⟨less, inclusive⟩ := rangeMark_spec below
  obtain ⟨less', inclusive'⟩ := rangeMark_spec above
  obtain ⟨last, readLimit, rest⟩ := readNumber_written isUpper foundUpper number
    (ends.endsBase.outside isNumberChar (by decide))
  refine ⟨last, ?_, by rw [ahead_eq, rest]⟩
  simp only [readTerm, starts, if_true, read, bind, Except.bind, marked, less, inclusive, readRange,
    readBase, boundedBelow, placed, marked', less', inclusive', readLimit, boundedAbove]

end Readers

/-- The text of a descriptor is read back as a term. -/
structure ReadsTerm (descriptor again : Descriptor) : Prop where
  kept : Rereads descriptor again
  reads : ∀ depth, descriptor.text.toList.length ≤ depth → ∀ behind, EndsTerm behind →
    Reads (readTerm (readUnion depth)) descriptor.text.toList behind again

/-- The text of a descriptor that is no union can be read back as a term. -/
def IsReadableTerm (descriptor : Descriptor) : Prop := ∃ again, ReadsTerm descriptor again

/-- The words for the infinities start with no number. -/
theorem opensBase_infinity {x : Binary64} (placed : x ≠ .nan) (infinite : x.isFinite = false) :
    OpensBase x.limitText.toList := by
  rcases Binary64.limitText_of_infinite placed infinite with same | same
  · rw [same]
    exact opensBase_cons (by decide) (by decide) _
  · rw [same]
    intro behind cursor written
    rw [startsNumber, written]
    rfl

/-- A base that starts with no number opens a base. -/
theorem opensBase_base (wellFormed : WellFormed descriptor) (single : descriptor.isUnion = false)
    (noNumber : descriptor.startsWithNumber = false) : OpensBase descriptor.base := by
  induction wellFormed with
  | unknown => exact opensBase_cons (by decide) (by decide) _
  | @primitive kind subtype bounds refines bounded placed =>
      have word : (base (.primitive kind subtype bounds)) = _ := kindText_toList kind subtype
      rw [word]
      cases kind <;> exact opensBase_cons (by decide) (by decide) _
  | unit isUnit =>
      cases isUnit with
      | boolean b => cases b <;> exact opensBase_cons (by decide) (by decide) _
      | string s =>
          have quoted : base (.unit (.string s)) =
              '\'' :: (s.toList.flatMap quotedChar ++ ['\'']) := String.toList_ofList
          rw [quoted]
          exact opensBase_cons (by decide) (by decide) _
      | integer n => cases noNumber
      | float placed => exact opensBase_infinity placed noNumber
  | @array element length inside placed ih =>
      rw [base_array]
      cases grouped : element.isGrouped with
      | true => exact opensBase_cons (by decide) (by decide) _
      | false =>
          rw [startsWithNumber, grouped] at noNumber
          rw [text_of_not_isGrouped grouped]
          exact (ih (isUnion_of_not_isGrouped grouped) noNumber).append _
  | union several flat inside => cases single

/-- Only what can be bounded has limits. -/
theorem isBounded_of_limits (wellFormed : WellFormed descriptor)
    (limited : descriptor.limits ≠ .none) : descriptor.isBounded = true := by
  cases wellFormed with
  | primitive refines bounded placed => exact bounded.resolve_right limited
  | array inside placed => rfl
  | _ => exact absurd rfl limited

/-- The text of a finite limit is read as a limit equal to it. -/
theorem exists_limit {bound : Bound} (finite : bound.limit.isFinite = true) :
    ∃ number, IsNumberText bound.limit.limitText.toList ∧
      numberOf? bound.limit.limitText.toList = some number ∧
      number.limit.eq bound.limit = true := by
  obtain ⟨number, found, stands⟩ := numberOf?_limitText finite
  exact ⟨number, isNumberText_limitText finite, found, stands.limit⟩

/-- A base is read where a mark follows. -/
theorem reads_before_mark {base : List Char} {depth : Nat} (mark : Mark)
    (reads : ReadsBase depth base again) :
    Reads (readBase (readUnion depth)) base (' ' :: (mark.text ++ behind)) again := by
  refine reads_readBase rfl ?_ reads
  rw [(begins_mark mark behind).dropSpace_space]
  cases mark <;> exact fun same => absurd (Option.some.inj same) (by decide)

theorem spaced_three (base mark limit : List Char) :
    spaced [base, mark, limit] = base ++ ' ' :: (mark ++ ' ' :: limit) := by
  rw [spaced_cons_cons, spaced_cons_cons]
  simp [spaced]

section Terms

variable (single : descriptor.isUnion = false) (kept : RereadsBase descriptor again)
  (reads : ∀ depth, descriptor.base.length ≤ depth → ReadsBase depth descriptor.base again)

include single kept reads

theorem isReadableTerm_plain (limits : descriptor.limits = .none)
    (opens : OpensBase descriptor.base) : IsReadableTerm descriptor := by
  refine ⟨again, kept.rereads single limits, fun depth deep behind ends => ?_⟩
  have text : descriptor.text.toList = descriptor.base := by
    rw [toList_text_member single, memberWords, limits]
    simp [wordsAround, Bounds.none, spaced]
  rw [text] at deep ⊢
  exact reads_plain opens (reads_readBase ends.endsBase ends.unmarked (reads depth deep)) ends

/-- A descriptor with its limits behind its base is read back, where the mark gives equal limits. -/
theorem isReadableTerm_limited {mark : Mark} {bound : Bound} (opens : OpensBase descriptor.base)
    (bounded : descriptor.isBounded = true) (finite : bound.limit.isFinite = true)
    (words : memberWords descriptor =
      [descriptor.base, mark.text, bound.limit.limitText.toList])
    (limited : ∀ x : Binary64, x.eq bound.limit = true →
      ∃ bounds : Bounds, bounds.same descriptor.limits = true ∧
        limitBehind mark x again = .ok (again.withLimits bounds)) :
    IsReadableTerm descriptor := by
  obtain ⟨number, isNumber, found, equal⟩ := exists_limit finite
  obtain ⟨bounds, same, limits⟩ := limited number.limit equal
  refine ⟨_, kept.limited bounded single same, fun depth deep behind ends => ?_⟩
  rw [toList_text_member single, words, spaced_three] at deep ⊢
  rw [List.length_append] at deep
  have base := reads depth (Nat.le_of_add_right_le deep)
  exact reads_limited opens (reads_before_mark mark base) isNumber found limits ends

theorem isReadableTerm_upper {upper : Bound} (opens : OpensBase descriptor.base)
    (bounded : descriptor.isBounded = true) (limits : descriptor.limits = ⟨none, some upper⟩)
    (finite : upper.limit.isFinite = true) : IsReadableTerm descriptor := by
  have words : memberWords descriptor =
      [descriptor.base, (rangeMark upper.inclusive).text, upper.limit.limitText.toList] := by
    rw [memberWords, limits, ← rangeMark_text]
    rfl
  refine isReadableTerm_limited single kept reads opens bounded finite words fun x equal => ?_
  refine ⟨⟨none, some ⟨x, upper.inclusive⟩⟩, ?_, ?_⟩
  · simp [limits, Bounds.same, Bounds.sameLimit, Bound.same, equal]
  · rw [← limit_upper ⟨x, upper.inclusive⟩ (kept.bounded.trans bounded) kept.limits]
    cases upper.inclusive <;> rfl

theorem isReadableTerm_lower {lower : Bound} (opens : OpensBase descriptor.base)
    (bounded : descriptor.isBounded = true) (limits : descriptor.limits = ⟨some lower, none⟩)
    (finite : lower.limit.isFinite = true) : IsReadableTerm descriptor := by
  have words : memberWords descriptor =
      [descriptor.base, (floorMark lower.inclusive).text, lower.limit.limitText.toList] := by
    rw [memberWords, limits, ← floorMark_text]
    rfl
  refine isReadableTerm_limited single kept reads opens bounded finite words fun x equal => ?_
  refine ⟨⟨some ⟨x, lower.inclusive⟩, none⟩, ?_, ?_⟩
  · simp [limits, Bounds.same, Bounds.sameLimit, Bound.same, equal]
  · rw [← limit_lower ⟨x, lower.inclusive⟩ (kept.bounded.trans bounded) kept.limits]
    cases lower.inclusive <;> rfl

/-- A descriptor with two equal limits is read back. -/
theorem isReadableTerm_point {lower upper : Bound} (opens : OpensBase descriptor.base)
    (bounded : descriptor.isBounded = true)
    (limits : descriptor.limits = ⟨some lower, some upper⟩)
    (finite : lower.limit.isFinite = true)
    (point : (lower.same upper && lower.inclusive) = true) : IsReadableTerm descriptor := by
  have words : memberWords descriptor =
      [descriptor.base, Mark.equal.text, lower.limit.limitText.toList] := by
    rw [memberWords, limits]
    simp only [wordsAround, if_pos point]
    rfl
  simp only [Bound.same, Bool.and_eq_true, beq_iff_eq] at point
  obtain ⟨⟨equals, sides⟩, inclusive⟩ := point
  refine isReadableTerm_limited single kept reads opens bounded finite words fun x equal => ?_
  refine ⟨⟨some ⟨x, true⟩, some ⟨x, true⟩⟩, ?_, ?_⟩
  · have upperEqual := Binary64.eq_trans equal equals
    simp [limits, Bounds.same, Bounds.sameLimit, Bound.same, equal, upperEqual, ← sides, inclusive]
  · obtain ⟨below, above⟩ := limit_both ⟨x, true⟩ ⟨x, true⟩ (kept.bounded.trans bounded) kept.limits
    simp only [limitBehind, below, bind, Except.bind, above]

/-- A descriptor with its base between two limits is read back. -/
theorem isReadableTerm_range {lower upper : Bound} (begins : Begins descriptor.base)
    (bounded : descriptor.isBounded = true)
    (limits : descriptor.limits = ⟨some lower, some upper⟩)
    (finite : lower.limit.isFinite = true) (finite' : upper.limit.isFinite = true)
    (range : ¬ (lower.same upper && lower.inclusive) = true) : IsReadableTerm descriptor := by
  have words : memberWords descriptor =
      [lower.limit.limitText.toList, (rangeMark lower.inclusive).text, descriptor.base,
        (rangeMark upper.inclusive).text, upper.limit.limitText.toList] := by
    rw [memberWords, limits]
    simp only [wordsAround, if_neg range, rangeMark_text]
  obtain ⟨first, isLower, foundLower, equal⟩ := exists_limit finite
  obtain ⟨second, isUpper, foundUpper, equal'⟩ := exists_limit finite'
  obtain ⟨below, above⟩ := limit_both ⟨first.limit, lower.inclusive⟩
    ⟨second.limit, upper.inclusive⟩ (kept.bounded.trans bounded) kept.limits
  have same : Bounds.same ⟨some ⟨first.limit, lower.inclusive⟩,
      some ⟨second.limit, upper.inclusive⟩⟩ descriptor.limits = true := by
    simp [limits, Bounds.same, Bounds.sameLimit, Bound.same, equal, equal']
  refine ⟨_, kept.limited bounded single same, fun depth deep behind ends => ?_⟩
  rw [toList_text_member single, words, spaced_cons_cons, spaced_cons_cons, spaced_three] at deep ⊢
  simp only [List.length_append, List.length_cons] at deep
  have base := reads depth (by omega)
  exact reads_range begins (reads_before_mark _ base) isLower foundLower isUpper foundUpper below
    above ends

end Terms

/-- A legible descriptor that is no union and no number is read back as a term, with its limits where
they are written. -/
theorem isReadableTerm_of_base (wellFormed : WellFormed descriptor)
    (single : descriptor.isUnion = false) (legible : descriptor.isLegible = true)
    (noNumeral : descriptor.isNumeral = false) (readable : IsReadableBase descriptor) :
    IsReadableTerm descriptor := by
  obtain ⟨again, kept, reads⟩ := readable
  obtain ⟨finite, -, guarded⟩ := (isLegible_iff single).mp legible
  have opens (noRange : descriptor.limits.isRange = false) : OpensBase descriptor.base := by
    rw [noRange, noNumeral] at guarded
    exact opensBase_base wellFormed single (by simpa using guarded)
  have limited := isBounded_of_limits wellFormed
  cases limits : descriptor.limits with
  | mk lower upper =>
      rw [limits] at finite opens limited
      simp only [Bounds.isFinite, Bool.and_eq_true] at finite
      cases lower with
      | none =>
          cases upper with
          | none => exact isReadableTerm_plain single kept reads limits (opens rfl)
          | some upper =>
              have bounded := limited (by simp [Bounds.none])
              exact isReadableTerm_upper single kept reads (opens rfl) bounded limits finite.2
      | some lower =>
          have bounded := limited (by simp [Bounds.none])
          cases upper with
          | none => exact isReadableTerm_lower single kept reads (opens rfl) bounded limits finite.1
          | some upper =>
              by_cases point : (lower.same upper && lower.inclusive) = true
              · have noRange : Bounds.isRange ⟨some lower, some upper⟩ = false := by
                  simp [Bounds.isRange, point]
                exact isReadableTerm_point single kept reads (opens noRange) bounded limits finite.1
                  point
              · have begins := (begins_base_text wellFormed).1 single
                exact isReadableTerm_range single kept reads begins bounded limits finite.1 finite.2
                  point

/-- A legible descriptor that is no union is read back as a term, if its base is read back. -/
theorem isReadableTerm (wellFormed : WellFormed descriptor) (single : descriptor.isUnion = false)
    (legible : descriptor.isLegible = true)
    (readable : descriptor.hasLegibleBase = true → IsReadableBase descriptor) :
    IsReadableTerm descriptor := by
  cases numeral : descriptor.isNumeral with
  | false =>
      have base := readable ((isLegible_iff single).mp legible).2.1
      exact isReadableTerm_of_base wellFormed single legible numeral base
  | true =>
      cases descriptor with
      | unit value =>
          obtain ⟨number, isNumber, found, kept⟩ := exists_number numeral
          exact ⟨_, kept, fun depth _ behind ends => reads_number isNumber found ends⟩
      | _ => cases numeral

end Mixfix.Descriptor
