import Mixfix.Proofs.Parse.Clipping
import Mixfix.Proofs.Text.Spelling

/-!
# The texts of literals

A text is a literal of a value if it is read as the value when it stands alone: a number, a string
between quotes, or a keyword (`IsLiteral`). What is read as a literal somewhere is such a text
(`exists_isLiteral`). Conversely such a text is read as its value wherever it stands, if neither a
word character nor a point follows, since these are all that could make it longer
(`constant?_of_isLiteral`).

The spellings of integers, strings and keywords are literals, so they are read back where a blank or
nothing stands behind them (`constant?_spelled`).
-/

set_option autoImplicit false

namespace Mixfix

open Unicode (isAsciiDigit)

/-- Characters that are taken as long as they satisfy a test end before one that does not. -/
theorem takeWhile_append_of_head {test : Char → Bool} {behind : List Char}
    (ends : behind.head?.all (fun c => !test c) = true) (text : List Char) :
    (text ++ behind).takeWhile test = text.takeWhile test ∧
      (text ++ behind).dropWhile test = text.dropWhile test ++ behind := by
  induction text with
  | nil =>
      cases behind with
      | nil => exact ⟨rfl, rfl⟩
      | cons c behind =>
          have stops : test c = false := by simpa using ends
          simp [stops]
  | cons c text ih =>
      rw [List.cons_append, List.takeWhile_cons, List.takeWhile_cons, List.dropWhile_cons,
        List.dropWhile_cons, ih.1, ih.2]
      split <;> exact ⟨rfl, rfl⟩

namespace Parse

open Lexeme
open Cursor (isBlank)

variable {text behind : List Char} {parts : NumberParts} {value : Value} {cursor : Cursor}

/-! ## What ends a literal -/

theorem isWordChar_of_isAsciiDigit {c : Char} (digit : isAsciiDigit c = true) :
    isWordChar c = true := by
  have small : c.toNat < 0x80 := by
    simp only [isAsciiDigit, Bool.and_eq_true, decide_eq_true_eq] at digit
    exact Nat.lt_of_le_of_lt digit.2 (by decide)
  rw [isWordChar, Unicode.isNumeric, if_pos small, digit, Bool.or_true, Bool.true_or]

/-- What cannot go on a path does not start with a word character or a point, nor with a character
of a class of word characters. -/
theorem head_of_endsPath (ends : endsPath behind = true) {test : Char → Bool}
    (word : ∀ c, test c = true → isWordChar c = true ∨ c = '.') :
    behind.head?.all (fun c => !test c) = true := by
  cases behind with
  | nil => rfl
  | cons c behind =>
      simp only [endsPath, List.head?_cons, Option.all_some, Bool.and_eq_true, Bool.not_eq_true',
        bne_iff_ne] at ends ⊢
      rw [Bool.eq_false_iff]
      intro holds
      rcases word c holds with inWord | point
      · rw [inWord] at ends
        cases ends.1
      · exact ends.2 point

theorem endsPath_of_blank (blank : behind.head?.all isBlank = true) : endsPath behind = true := by
  cases behind with
  | nil => rfl
  | cons c behind =>
      simp only [List.head?_cons, Option.all_some, endsPath] at blank ⊢
      rw [isWordChar_of_isBlank blank]
      simp only [isBlank, Bool.or_eq_true, beq_iff_eq] at blank
      rcases blank with ((rfl | rfl) | rfl) | rfl <;> rfl

/-! ## Numbers before other text -/

section Numbers

variable (ends : endsPath behind = true)
include ends

theorem splitDigits_append_of_ends (text : List Char) :
    splitDigits (text ++ behind) = ((splitDigits text).1, (splitDigits text).2 ++ behind) := by
  obtain ⟨taken, left⟩ := takeWhile_append_of_head
    (head_of_endsPath ends fun _ digit => .inl (isWordChar_of_isAsciiDigit digit)) text
  rw [splitDigits, splitDigits, taken, left]

theorem splitFraction_append_of_ends (text : List Char) :
    splitFraction (text ++ behind) = ((splitFraction text).1, (splitFraction text).2 ++ behind) := by
  cases text with
  | nil =>
      cases behind with
      | nil => rfl
      | cons c behind =>
          have other : c ≠ '.' := by
            rintro rfl
            cases ends
          exact splitFraction_of_ne other behind
  | cons c text =>
      by_cases point : c = '.'
      · subst point
        simp only [List.cons_append, splitFraction, splitDigits_append_of_ends ends]
        rcases splitDigits text with ⟨_ | ⟨digit, digits⟩, left⟩ <;> rfl
      · rw [List.cons_append, splitFraction_of_ne point, splitFraction_of_ne point]
        rfl

/-- An exponent that is all of a text does not go on behind it. A mark alone could, with a sign. -/
theorem splitExponent_append_of_ends {exponent : Option (Bool × List Char)}
    (whole : splitExponent text = (exponent, [])) :
    splitExponent (text ++ behind) = (exponent, behind) := by
  cases text with
  | nil =>
      cases whole
      cases behind with
      | nil => rfl
      | cons c behind =>
          have other : ¬ (decide (c = 'e') || decide (c = 'E')) = true := by
            rw [Bool.or_eq_true, decide_eq_true_eq, decide_eq_true_eq]
            rintro (rfl | rfl) <;> cases ends
          rw [List.nil_append, splitExponent, if_neg other]
  | cons mark text =>
      rw [splitExponent] at whole
      rw [List.cons_append, splitExponent]
      split at whole
      · next marked =>
          rw [if_pos marked]
          cases text with
          | nil => cases whole
          | cons c text =>
              simp only [splitSign_cons_append, splitDigits_append_of_ends ends] at whole ⊢
              rcases found : splitDigits (splitSign (c :: text)).2 with ⟨_ | ⟨digit, digits⟩, left⟩
              · rw [found] at whole
                cases whole
              · rw [found] at whole
                cases whole
                rfl
      · cases whole

/-- A number that is all of a text does not go on behind it. -/
theorem splitNumber_append_of_ends (whole : splitNumber text = some (parts, [])) :
    splitNumber (text ++ behind) = some (parts, behind) := by
  cases text with
  | nil => cases whole
  | cons c text =>
      simp only [splitNumber, splitMinus_cons_append, splitDigits_append_of_ends ends] at whole ⊢
      rcases first : splitDigits (splitMinus (c :: text)).2 with ⟨_ | ⟨digit, digits⟩, afterWhole⟩
      · rw [first] at whole
        cases whole
      · rcases last : splitExponent (splitFraction afterWhole).2 with ⟨exponent, left⟩
        simp only [first, last, Option.some.injEq, Prod.mk.injEq] at whole
        obtain ⟨rfl, rfl⟩ := whole
        simp only [splitFraction_append_of_ends ends, splitExponent_append_of_ends ends last]

end Numbers

/-! ## Literals -/

/-- A text that is read as a value when it stands alone. -/
inductive IsLiteral : List Char → Value → Prop
  | number {text : List Char} {parts : NumberParts}
      (divided : splitNumber text = some (parts, [])) : IsLiteral text parts.value
  | string {quote : Char} {text content : List Char} (quoted : quote = '"' ∨ quote = '\'')
      (closed : scan quote 1 0 text = .closed content text.length) :
      IsLiteral (quote :: text) (.string (String.ofList content))
  | keyword (keyword : Keyword) : IsLiteral keyword.text.toList keyword.value

theorem isLiteral_of_number? {lexeme : Lexeme Value} (read : number? cursor = some lexeme)
    (last : lexeme.next.rest = []) : IsLiteral cursor.skipBlanks.rest lexeme.content := by
  simp only [number?] at read
  split at read
  · next parts left divided =>
      cases read
      have shorter := length_splitNumber divided
      have length := congrArg List.length last
      simp only [Lexeme.ahead, Cursor.length_rest_advance, List.length_nil] at length
      obtain rfl : left = [] := List.eq_nil_of_length_eq_zero (by omega)
      exact .number divided
  · cases read

theorem isLiteral_of_string? {lexeme : Lexeme String} (read : string? cursor = .ok (some lexeme))
    (last : lexeme.next.rest = []) :
    IsLiteral cursor.skipBlanks.rest (.string lexeme.content) := by
  simp only [string?] at read
  split at read
  · cases read
  · next quote rest same =>
      split at read
      · next quoted =>
          split at read
          · next content place closed =>
              cases read
              rw [Bool.or_eq_true, decide_eq_true_eq, decide_eq_true_eq] at quoted
              have within := scan_closed closed
              have length := congrArg List.length last
              simp only [Lexeme.ahead, Cursor.length_rest_advance, same, List.length_cons,
                List.length_nil] at length
              obtain rfl : place = rest.length := by omega
              rw [same]
              exact .string quoted closed
          · cases read
      · cases read

theorem isLiteral_of_keyword? {keyword : Keyword} {lexeme : Lexeme Keyword}
    (read : keyword? keyword cursor = some lexeme) (last : lexeme.next.rest = []) :
    IsLiteral cursor.skipBlanks.rest lexeme.content.value := by
  simp only [keyword?] at read
  split at read
  · next stands =>
      cases read
      obtain ⟨left, same⟩ := prefix_of_standsAt stands
      simp only [Lexeme.ahead, Cursor.advance, ← same, List.drop_left] at last
      subst last
      rw [← same, List.append_nil]
      exact .keyword keyword
  · cases read

/-- What is read as a literal up to the end of a text is one. -/
theorem isLiteral_of_constant? {lexeme : Lexeme Value}
    (found : constant? cursor = .ok (some lexeme)) (last : lexeme.next.rest = []) :
    IsLiteral cursor.skipBlanks.rest lexeme.content := by
  unfold constant? at found
  split at found
  · next number read =>
      cases found
      exact isLiteral_of_number? read last
  · split at found
    · cases found
    · next value read =>
        cases found
        obtain ⟨string, here, rfl⟩ := stringValue?_eq_some_iff.mp read
        exact isLiteral_of_string? here last
    · obtain ⟨keyword, _, read⟩ := List.exists_of_findSome?_eq_some (Except.ok.inj found)
      obtain ⟨inner, here, rfl⟩ := Option.map_eq_some_iff.mp read
      exact isLiteral_of_keyword? here last

/-- What is read as a literal is one, and stands ahead. -/
theorem exists_isLiteral {lexeme : Lexeme Value} (found : constant? cursor = .ok (some lexeme)) :
    ∃ text, IsLiteral text lexeme.content ∧ cursor.skipBlanks.rest = text ++ lexeme.next.rest := by
  obtain ⟨_, count, _, _, moved⟩ := starts_of_constant? found
  have same : cursor.skipBlanks.rest = cursor.skipBlanks.rest.take count ++ lexeme.next.rest := by
    rw [moved, Cursor.advance, List.take_append_drop]
  generalize textIs : cursor.skipBlanks.rest.take count = text at same
  have place : (⟨cursor.skipBlanks.offset, text⟩ : Cursor).embedded 0 lexeme.next.rest =
      cursor.skipBlanks := by
    rw [Cursor.embedded, Nat.zero_add, ← same]
  rw [← constant?_skipBlanks, ← place] at found
  obtain ⟨clipped, own, again⟩ := constant?_clip found (Nat.le_refl _)
  have last : clipped.next.rest = [] := by
    have rest := congrArg (fun lexeme => lexeme.next.rest) again
    exact List.append_left_eq_self.mp rest.symm
  have start : (⟨cursor.skipBlanks.offset, text⟩ : Cursor).skipBlanks =
      ⟨cursor.skipBlanks.offset, text⟩ := by
    have skipped := @Cursor.skipBlanks_embedded_of_ne_nil 0 lexeme.next.rest _
      (starts_of_constant? own).2.rest_ne_nil
    rw [place, Cursor.skipBlanks_skipBlanks] at skipped
    exact Cursor.embedded_injective (skipped.symm.trans place.symm)
  have literal := isLiteral_of_constant? own last
  rw [start] at literal
  exact ⟨text, by rw [again]; exact literal, same⟩

/-- A keyword is found if it is the word ahead. -/
theorem keywordValue?_of_takeWhile {keyword : Keyword}
    (word : cursor.skipBlanks.rest.takeWhile isWordChar = keyword.text.toList) :
    keywordValue? cursor =
      some (Lexeme.ahead cursor.skipBlanks keyword.text.toList.length keyword.value) := by
  have stands (other : Keyword) :
      standsAt other.text.toList cursor.skipBlanks = decide (keyword = other) := by
    have differ : ∀ first second : Keyword, first.text.toList = second.text.toList →
        first = second := by
      intro first second same
      cases first <;> cases second <;> first | rfl | exact absurd same (by decide)
    rw [Bool.eq_iff_iff, standsAt_keyword_iff, word, decide_eq_true_eq]
    exact ⟨differ keyword other, fun same => same ▸ rfl⟩
  cases keyword <;> simp [keywordValue?, Keyword.all, keyword?, stands, Lexeme.map, Lexeme.ahead]

/-- A literal is read as its value wherever nothing follows that could make it longer. -/
theorem constant?_of_isLiteral (literal : IsLiteral text value) (ends : endsPath behind = true)
    (written : cursor.skipBlanks.rest = text ++ behind) :
    constant? cursor = .ok (some (Lexeme.ahead cursor.skipBlanks text.length value)) := by
  cases literal with
  | number divided =>
      simp only [constant?, number?, written, splitNumber_append_of_ends ends divided,
        List.length_append, Nat.add_sub_cancel]
  | @string quote text content quoted closed =>
      have first : cursor.skipBlanks.rest = quote :: (text ++ behind) := written
      have noNumber : number? cursor = none := by
        refine number?_eq_none first ?_ ?_
        · rcases quoted with rfl | rfl <;> decide
        · rintro rfl
          rcases quoted with other | other <;> cases other
      simp [constant?, noNumber, stringValue?, string?, first, quoted, scan_append closed, Lexeme.map,
        Lexeme.ahead]
  | keyword keyword =>
      obtain ⟨c, rest, letters, notDigit, notMinus, double, single⟩ :
          ∃ c rest, keyword.text.toList = c :: rest ∧ isAsciiDigit c = false ∧ c ≠ '-' ∧ c ≠ '"' ∧
            c ≠ '\'' := by
        cases keyword <;> exact ⟨_, _, rfl, by decide, by decide, by decide, by decide⟩
      have first : cursor.skipBlanks.rest = c :: (rest ++ behind) := by
        rw [written, letters]
        rfl
      have noNumber := number?_eq_none first notDigit fun minus => absurd minus notMinus
      have noString := stringValue?_eq_none first double single
      have word : cursor.skipBlanks.rest.takeWhile isWordChar = keyword.text.toList := by
        rw [written]
        exact takeWhile_append_of_all (isWordChar_keyword keyword)
          (head_of_endsPath ends fun _ inWord => .inl inWord)
      simp only [constant?, noNumber, noString, keywordValue?_of_takeWhile word]

/-! ## Spellings -/

/-- The digits of a natural number, with a minus or without. -/
theorem isLiteral_digits (negative : Bool) (n : Nat) {value : Int64}
    (fits : Numeral.toInt64? (withSign negative n) = some value) :
    IsLiteral ((if negative then ['-'] else []) ++ Nat.toDigits 10 n) (.integer value) := by
  have divided := @splitNumber_digits _ [] negative (Numeral.toDigits_ne_nil n)
    (Numeral.digits_toDigits n) rfl
  rw [List.append_nil] at divided
  have read : (⟨negative, Nat.toDigits 10 n, [], none⟩ : NumberParts).value = .integer value := by
    simp only [NumberParts.value, Numeral.value_toDigits, fits]
  rw [← read]
  exact .number divided

theorem isLiteral_toString (n : Int64) : IsLiteral (toString n.toInt).toList (.integer n) := by
  have fits : Numeral.toInt64? (withSign (decide (n.toInt < 0)) n.toInt.natAbs) = some n := by
    rw [Numeral.withSign_natAbs, Numeral.toInt64?_toInt]
  have literal := isLiteral_digits _ _ fits
  rw [Numeral.toList_toString]
  simpa only [decide_eq_true_eq] using literal

theorem isLiteral_quoted (s : String) : IsLiteral (spelled (.string s)) (.string s) := by
  have closed : scan '"' 1 0 (s.toList.flatMap spelledChar ++ ['"']) =
      .closed s.toList (s.toList.flatMap spelledChar ++ ['"']).length := by
    rw [scan_spelled, List.length_append, List.length_singleton, Nat.add_comm]
  have literal := IsLiteral.string (.inl rfl) closed
  rwa [String.ofList_toList] at literal

/-- A literal is written as one. -/
theorem isLiteral_spelled (isConstant : IsConstant value) : IsLiteral (spelled value) value := by
  cases isConstant with
  | integer n => exact isLiteral_toString n
  | string s => exact isLiteral_quoted s
  | keyword keyword =>
      rw [spelled_keyword]
      exact .keyword keyword

/-- A literal is read from its spelling and takes exactly this. -/
theorem constant?_spelled (isConstant : IsConstant value)
    (written : cursor.skipBlanks.rest = spelled value ++ behind)
    (spaced : behind.head?.all isBlank = true) :
    constant? cursor =
      .ok (some (Lexeme.ahead cursor.skipBlanks (spelled value).length value)) :=
  constant?_of_isLiteral (isLiteral_spelled isConstant) (endsPath_of_blank spaced) written

end Parse

end Mixfix
