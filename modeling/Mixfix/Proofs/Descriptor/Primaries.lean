import Mixfix.Proofs.Descriptor.Alike
import Mixfix.Proofs.Descriptor.Numbers
import Mixfix.Proofs.Descriptor.Reading

/-!
# What the reader of bases takes

A base without array marks is a word, a quoted value, a number or a descriptor in parentheses, and
the reader takes each of them as it is written. The words for the unknown, the kinds and the truth
values are read one by one (`readPrimary_word`, `ofWord_kindText`), quoted values and numbers by
their texts (`readPrimary_quoted`, `readPrimary_number`), and parentheses around what another reader
takes (`readPrimary_group`). Array marks behind a base are read one after the other (`Marked`).

Readers skip white space where they start, so what matters about a cursor is the text ahead of it
(`ahead`); every text of a descriptor begins with a character that is not skipped (`begins_text`).
Where a base ends shows in what follows: a space, a closing parenthesis, an array mark or nothing
(`EndsBase`).
-/

set_option autoImplicit false

namespace Mixfix.Descriptor

open Unicode (isAsciiDigit isAsciiLetter isWhiteSpace)

variable {cursor : Cursor} {text behind : List Char}

/-! ## What lies ahead -/

/-- A text without the white space at its start. -/
def dropSpace (text : List Char) : List Char := text.dropWhile isWhiteSpace

/-- The text ahead of a cursor, without white space at its start. -/
def ahead (cursor : Cursor) : List Char := (skipSpace cursor).rest

theorem ahead_eq (cursor : Cursor) : ahead cursor = dropSpace cursor.rest :=
  Cursor.rest_skipWhile isWhiteSpace cursor

@[simp]
theorem skipSpace_skipSpace (cursor : Cursor) : skipSpace (skipSpace cursor) = skipSpace cursor :=
  Cursor.skipWhile_skipWhile isWhiteSpace cursor

@[simp]
theorem ahead_skipSpace (cursor : Cursor) : ahead (skipSpace cursor) = ahead cursor := by
  rw [ahead, ahead, skipSpace_skipSpace]

theorem length_ahead_le (cursor : Cursor) : (ahead cursor).length ≤ cursor.rest.length := by
  rw [ahead_eq]
  exact (List.dropWhile_sublist _).length_le

/-- A text that starts with a character other than white space. -/
def Begins (text : List Char) : Prop := ∃ c rest, text = c :: rest ∧ isWhiteSpace c = false

theorem Begins.append (begins : Begins text) (behind : List Char) : Begins (text ++ behind) := by
  obtain ⟨c, rest, rfl, solid⟩ := begins
  exact ⟨c, rest ++ behind, rfl, solid⟩

theorem Begins.dropSpace (begins : Begins text) : dropSpace text = text := by
  obtain ⟨c, rest, rfl, solid⟩ := begins
  exact List.dropWhile_cons_of_neg (by simp [solid])

/-- Of a space before a text the readers see nothing. -/
theorem Begins.dropSpace_space (begins : Begins text) :
    Descriptor.dropSpace (' ' :: text) = text := by
  rw [Descriptor.dropSpace, List.dropWhile_cons_of_pos (by decide)]
  exact begins.dropSpace

/-- The printed characters of ASCII are no white space. -/
theorem isWhiteSpace_of_printed {c : Char} (above : 0x20 < c.toNat) (below : c.toNat < 0x80) :
    isWhiteSpace c = false := by
  rw [isWhiteSpace, Unicode.whiteSpaceRanges, Unicode.Ranges.contains_cons_of_lt (by omega),
    Unicode.Ranges.contains_cons_of_lt above, Unicode.Ranges.contains,
    if_neg (Nat.not_lt.mpr (by omega))]
  exact decide_eq_false (by omega)

theorem isWhiteSpace_of_digit {c : Char} (digit : isAsciiDigit c = true) :
    isWhiteSpace c = false := by
  simp only [isAsciiDigit, Bool.and_eq_true, decide_eq_true_eq] at digit
  exact isWhiteSpace_of_printed (Nat.lt_of_lt_of_le (by decide) digit.1)
    (Nat.lt_of_le_of_lt digit.2 (by decide))

theorem IsNumberText.begins (number : IsNumberText text) : Begins text := by
  obtain ⟨negative, size, rfl, positional⟩ := number
  obtain ⟨c, rest, rfl, digit⟩ := positional.exists_digit
  cases negative with
  | true => exact ⟨'-', c :: rest, rfl, by decide⟩
  | false => exact ⟨c, rest, rfl, isWhiteSpace_of_digit digit⟩

/-- A mark ahead is passed. -/
theorem eat?_written {c : Char} {rest : List Char} (written : ahead cursor = c :: rest ++ behind) :
    ∃ next, eat? (c :: rest) cursor = some next ∧ next.rest = behind := by
  refine ⟨(skipSpace cursor).advance (c :: rest).length, ?_, ?_⟩
  · rw [eat?, Cursor.strip?, if_pos]
    rw [List.isPrefixOf_iff_prefix]
    exact ⟨behind, written.symm⟩
  · rw [Cursor.advance, show (skipSpace cursor).rest = _ from written, List.drop_left]

theorem eat?_eq_none {c : Char} {rest : List Char} (differs : (ahead cursor).head? ≠ some c) :
    eat? (c :: rest) cursor = none := by
  rw [eat?, Cursor.strip?, if_neg]
  rw [List.isPrefixOf_iff_prefix]
  rintro ⟨more, same⟩
  exact differs (by rw [ahead, ← same]; rfl)

/-- What can stand behind a base: a space, a closing parenthesis, an array mark or nothing. -/
def EndsBase (behind : List Char) : Prop :=
  behind.head?.all (fun c => [' ', ')', '['].contains c) = true

theorem EndsBase.outside (ends : EndsBase behind) (test : Char → Bool)
    (fails : [' ', ')', '['].all (fun c => !test c) = true) :
    behind.head?.all (fun c => !test c) = true := by
  cases behind with
  | nil => rfl
  | cons c behind => exact List.all_eq_true.mp fails c (by simpa [EndsBase] using ends)

/-! ## Words -/

/-- A word is taken as a whole. -/
theorem readPrimary_eq_word {inner : Reader Descriptor} {word : List Char}
    (chars : word.all isWordChar = true) (letter : word.head?.any isAsciiLetter = true)
    (written : ahead cursor = word ++ behind) (ends : EndsBase behind) :
    readPrimary inner cursor = (placed (skipSpace cursor) (ofWord word)).map fun descriptor =>
      (descriptor, (skipSpace cursor).advance word.length) := by
  have stops : behind.takeWhile isWordChar = [] := by
    have outside := ends.outside isWordChar (by decide)
    cases behind with
    | nil => rfl
    | cons c behind => exact List.takeWhile_cons_of_neg (by simpa using outside)
  have taken : (word ++ behind).takeWhile isWordChar = word := by
    rw [List.takeWhile_append_of_pos (List.all_eq_true.mp chars), stops, List.append_nil]
  have written : (skipSpace cursor).rest = word ++ behind := written
  cases word with
  | nil => cases letter
  | cons c rest =>
      have letter : isAsciiLetter c = true := letter
      have other : ∀ d : Char, isAsciiLetter d = false → c ≠ d := by
        rintro d outside rfl
        rw [letter] at outside
        cases outside
      simp only [readPrimary, written, List.cons_append]
      rw [if_neg (other '(' (by decide)), if_neg (by
        simp [other '\'' (by decide), other '"' (by decide)]), if_pos letter]
      simp only [readWord, written, taken]
      rfl

/-- A word is read as what it stands for. -/
theorem readPrimary_word {inner : Reader Descriptor} {word : List Char} {descriptor : Descriptor}
    (known : ofWord word = .ok descriptor) (chars : word.all isWordChar = true)
    (letter : word.head?.any isAsciiLetter = true) (written : ahead cursor = word ++ behind)
    (ends : EndsBase behind) :
    ∃ next, readPrimary inner cursor = .ok (descriptor, next) ∧ next.rest = behind := by
  refine ⟨(skipSpace cursor).advance word.length, ?_, ?_⟩
  · rw [readPrimary_eq_word chars letter written ends, known]
    rfl
  · rw [Cursor.advance, ← ahead, written, List.drop_left]

/-- The word for a kind with its refinement stands for them. -/
theorem ofWord_kindText {kind : Kind} {subtype : Option Subtype}
    (refines : ∀ refinement ∈ subtype, refinement.kind = kind) :
    ofWord (kindText kind subtype).toList = .ok (.primitive kind subtype .none) := by
  cases subtype with
  | none => cases kind <;> rfl
  | some refinement =>
      obtain rfl := refines refinement rfl
      cases refinement <;> rfl

/-! ## Values -/

/-- The text between quotes is read back up to the closing quote. -/
theorem quotedText?_quoted (text : List Char) :
    quotedText? '\'' false (text.flatMap quotedChar ++ '\'' :: behind) =
      some (text, (text.flatMap quotedChar).length + 1) := by
  induction text with
  | nil => rfl
  | cons c text ih =>
      rw [List.flatMap_cons, List.append_assoc, List.length_append]
      by_cases marked : c = '\'' ∨ c = '\\'
      · have quoted : quotedChar c = ['\\', c] := by
          simp only [quotedChar, Bool.or_eq_true, decide_eq_true_eq, if_pos marked]
        rw [quoted]
        simp only [List.cons_append, List.nil_append, quotedText?, Bool.false_eq_true, if_false,
          if_true, ih, Option.map_some]
        congr 2
        simp only [List.length_cons, List.length_nil]
        omega
      · have plain : quotedChar c = [c] := by
          simp only [quotedChar, Bool.or_eq_true, decide_eq_true_eq, if_neg marked]
        obtain ⟨notQuote, notBackslash⟩ := not_or.mp marked
        rw [plain]
        simp only [List.cons_append, List.nil_append, quotedText?, Bool.false_eq_true, if_false,
          if_neg notQuote, if_neg notBackslash, ih, Option.map_some]
        congr 2
        simp only [List.length_cons, List.length_nil]
        omega

variable {inner : Reader Descriptor}

theorem readPrimary_quoted (s : String)
    (written : ahead cursor = (unitText (.string s)).toList ++ behind) :
    ∃ next, readPrimary inner cursor = .ok (.unit (.string s), next) ∧ next.rest = behind := by
  have written : (skipSpace cursor).rest =
      '\'' :: (s.toList.flatMap quotedChar ++ '\'' :: behind) := by
    rw [← ahead, written, unitText, String.toList_ofList]
    simp
  refine ⟨(skipSpace cursor).advance ((s.toList.flatMap quotedChar).length + 1 + 1), ?_, ?_⟩
  · simp only [readPrimary, written]
    rw [if_neg (by decide), if_pos (by decide)]
    simp only [readQuoted, written, List.drop_succ_cons, List.drop_zero, quotedText?_quoted,
      String.ofList_toList]
  · have whole : s.toList.flatMap quotedChar ++ '\'' :: behind =
        (s.toList.flatMap quotedChar ++ ['\'']) ++ behind := by simp
    rw [Cursor.advance, written, List.drop_succ_cons, whole]
    exact List.drop_left' (by simp)

theorem readPrimary_number {number : Number} (isNumber : IsNumberText text)
    (found : numberOf? text = some number) (written : ahead cursor = text ++ behind)
    (ends : EndsBase behind) :
    ∃ next, readPrimary inner cursor = .ok (.unit number.value, next) ∧ next.rest = behind := by
  have starts := isNumber.startsNumber written
  obtain ⟨next, read, rest⟩ := readNumber_written isNumber found written
    (ends.outside isNumberChar (by decide))
  refine ⟨next, ?_, rest⟩
  obtain ⟨negative, size, rfl, positional⟩ := isNumber
  obtain ⟨d, digits, rfl, digit⟩ := positional.exists_digit
  -- neither a minus nor a digit opens a base of another kind
  have other : ∀ c more, ahead cursor = c :: more →
      c ≠ '(' ∧ c ≠ '\'' ∧ c ≠ '"' ∧ isAsciiLetter c = false := by
    intro c more first
    rw [written] at first
    have numeral : c = '-' ∨ isAsciiDigit c = true := by
      cases negative with
      | true => exact .inl (List.cons.inj first).1.symm
      | false => exact .inr ((List.cons.inj first).1 ▸ digit)
    rcases numeral with rfl | digit
    · decide
    · have notLetter : isAsciiLetter c = false := by
        simp only [isAsciiDigit, Bool.and_eq_true, decide_eq_true_eq] at digit
        rw [Bool.eq_false_iff]
        intro letter
        simp only [isAsciiLetter, Bool.or_eq_true, Bool.and_eq_true, decide_eq_true_eq] at letter
        rcases letter with ⟨lower, _⟩ | ⟨lower, _⟩
        · exact absurd (Char.le_trans lower digit.2) (by decide)
        · exact absurd (Char.le_trans lower digit.2) (by decide)
      refine ⟨?_, ?_, ?_, notLetter⟩ <;> rintro rfl <;> exact absurd digit (by decide)
  simp only [readPrimary]
  split
  · next none =>
      rw [← ahead, written] at none
      cases negative <;> cases none
  · next c more first =>
      obtain ⟨notOpen, notSingle, notDouble, notLetter⟩ := other c more first
      rw [if_neg notOpen, if_neg (by simp [notSingle, notDouble]), if_neg (by simp [notLetter]),
        if_pos starts, read]
      rfl

/-! ## Parentheses and array marks -/

/-- A reader takes a text where another one stands behind it, and gives a result. -/
def Reads {α : Type} (reader : Reader α) (text behind : List Char) (result : α) : Prop :=
  ∀ cursor, ahead cursor = text ++ behind →
    ∃ next, reader cursor = .ok (result, next) ∧ ahead next = dropSpace behind

theorem readPrimary_group {enclosed : Descriptor} (begins : Begins text)
    (reads : Reads inner text (')' :: behind) enclosed)
    (written : ahead cursor = '(' :: text ++ ')' :: behind) :
    ∃ next, readPrimary inner cursor = .ok (enclosed, next) ∧ next.rest = behind := by
  have written : (skipSpace cursor).rest = '(' :: (text ++ ')' :: behind) := written
  have inside : ahead ((skipSpace cursor).advance 1) = text ++ ')' :: behind := by
    rw [ahead_eq, Cursor.advance, written]
    exact (begins.append _).dropSpace
  have closing : Begins (')' :: behind) := ⟨')', behind, rfl, by decide⟩
  obtain ⟨next, read, rest⟩ := reads _ inside
  have rest : ahead next = [')'] ++ behind := rest.trans closing.dropSpace
  obtain ⟨closed, eats, behind⟩ := eat?_written rest
  refine ⟨closed, ?_, behind⟩
  simp only [readPrimary, written, if_true, read]
  simp only [bind, Except.bind, eats]

/-- The reader of array marks comes from a base to another one behind some marks. -/
def Marked (base : Descriptor) (cursor : Cursor) (marked : Descriptor) (next : Cursor) : Prop :=
  ∃ count, count + next.rest.length ≤ cursor.rest.length ∧
    ∀ steps, readArrayMarks (steps + count) base cursor = readArrayMarks steps marked next

variable {base marked : Descriptor} {next : Cursor}

theorem Marked.refl (base : Descriptor) (cursor : Cursor) : Marked base cursor base cursor :=
  ⟨0, Nat.le_of_eq (Nat.zero_add _), fun _ => rfl⟩

/-- An array mark more makes an array. -/
theorem Marked.mark (marks : Marked base cursor marked next)
    (written : ahead next = ['[', ']'] ++ behind) :
    ∃ after, Marked base cursor (.array marked .none) after ∧ after.rest = behind := by
  obtain ⟨count, shorter, follows⟩ := marks
  obtain ⟨after, eats, rest⟩ := eat?_written written
  have length := length_ahead_le next
  refine ⟨after, ⟨count + 1, ?_, fun steps => ?_⟩, rest⟩
  · rw [written, List.length_append] at length
    rw [rest]
    simp only [List.length_cons, List.length_nil] at length
    omega
  · rw [Nat.add_comm count 1, ← Nat.add_assoc, follows, readArrayMarks, eats]

/-- Where no array mark stands the reader stops. -/
theorem Marked.stops (marks : Marked base cursor marked next)
    (ends : (ahead next).head? ≠ some '[') :
    readArrayMarks cursor.rest.length base cursor = (marked, skipSpace next) := by
  obtain ⟨count, shorter, follows⟩ := marks
  obtain ⟨steps, same⟩ := Nat.exists_eq_add_of_le (Nat.le_of_add_right_le shorter)
  rw [same, Nat.add_comm, follows]
  cases steps with
  | zero => rfl
  | succ steps => rw [readArrayMarks, eat?_eq_none ends]

/-! ## First characters -/

theorem begins_of_isNumeral (numeral : IsNumeral text) : Begins text := by
  obtain ⟨⟨c, rest, rfl, starts⟩, -⟩ := numeral
  refine ⟨c, rest, rfl, ?_⟩
  simp only [startsNumeral, Bool.or_eq_true, List.contains_iff_mem, List.mem_cons,
    List.not_mem_nil, or_false] at starts
  rcases starts with digit | rfl | rfl | rfl
  · exact isWhiteSpace_of_digit digit
  · decide
  · decide
  · decide

theorem begins_kindText (kind : Kind) (subtype : Option Subtype) :
    Begins (kindText kind subtype).toList := by
  have keyword : Begins kind.keyword.toList := by cases kind <;> exact ⟨_, _, rfl, by decide⟩
  rw [kindText_toList]
  exact keyword.append _

theorem begins_unitText {value : Value} (isUnit : IsUnit value) :
    Begins (unitText value).toList := by
  cases isUnit with
  | boolean b => cases b <;> exact ⟨_, _, rfl, by decide⟩
  | integer n => exact begins_of_isNumeral (isNumeral_toString n.toInt)
  | float placed => exact begins_of_isNumeral (Binary64.isNumeral_limitText _)
  | string s =>
      rw [unitText, String.toList_ofList]
      exact ⟨_, _, rfl, by decide⟩

theorem begins_spaced {word : List Char} (begins : Begins word) (words : List (List Char)) :
    Begins (spaced (word :: words)) := by
  cases words with
  | nil => simpa [spaced] using begins
  | cons other words =>
      rw [spaced_cons_cons]
      exact begins.append _

theorem begins_around (bounds : Bounds) {base : List Char} (begins : Begins base) :
    Begins (spaced (wordsAround bounds base)) := by
  have limit (x : Binary64) := begins_of_isNumeral x.isNumeral_limitText
  unfold wordsAround
  split
  · exact begins_spaced begins _
  · split
    · exact begins_spaced begins _
    · exact begins_spaced (limit _) _
  · exact begins_spaced begins _
  · exact begins_spaced begins _

/-- The text of the members of a union behind the first. -/
def furtherText (members : List Descriptor) : List Char :=
  members.flatMap fun member => ' ' :: '|' :: ' ' :: member.text.toList

theorem toList_joinMembers (first : Descriptor) (further : List Descriptor) :
    (joinMembers (texts (first :: further))).toList =
      first.text.toList ++ furtherText further := by
  rw [joinMembers, texts_eq_map, String.toList_intercalate]
  induction further generalizing first with
  | nil => simp [furtherText]
  | cons second further ih =>
      have rest := ih second
      simp only [List.map_cons, List.intercalate_cons_cons] at rest ⊢
      rw [rest]
      simp [furtherText]

/-- A well-formed descriptor is written with a character in front that is no white space, and so is
its base. -/
theorem begins_base_text {descriptor : Descriptor} (wellFormed : WellFormed descriptor) :
    (descriptor.isUnion = false → Begins descriptor.base) ∧ Begins descriptor.text.toList := by
  have ofBase {descriptor : Descriptor} (single : descriptor.isUnion = false)
      (begins : Begins descriptor.base) :
      (descriptor.isUnion = false → Begins descriptor.base) ∧ Begins descriptor.text.toList := by
    refine ⟨fun _ => begins, ?_⟩
    rw [toList_text_member single]
    exact begins_around _ begins
  induction wellFormed with
  | unknown => exact ofBase rfl ⟨_, _, rfl, by decide⟩
  | primitive refines bounded placed => exact ofBase rfl (begins_kindText _ _)
  | unit isUnit => exact ofBase rfl (begins_unitText isUnit)
  | array inside placed ih =>
      apply ofBase rfl
      rw [base_array]
      split
      · exact ⟨'(', _, rfl, by decide⟩
      · exact ih.2.append _
  | @union members several flat inside ih =>
      refine ⟨fun single => Bool.noConfusion single, ?_⟩
      cases members with
      | nil => cases several
      | cons first further =>
          rw [text, toList_joinMembers]
          exact (ih first List.mem_cons_self).2.append _

theorem begins_text {descriptor : Descriptor} (wellFormed : WellFormed descriptor) :
    Begins descriptor.text.toList :=
  (begins_base_text wellFormed).2

end Mixfix.Descriptor
