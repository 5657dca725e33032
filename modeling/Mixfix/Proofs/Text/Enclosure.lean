import Mixfix.Proofs.Text.Tokens

/-!
# Texts in front of parentheses

A text can be a part of a longer one (`Cursor.embedded`). If a parenthesis stands behind it, this
ends numbers, words and blanks, and belongs to no registered text but itself, so readers find in the
longer text what they find in the text alone, farther on by the bytes before it.

Most readers find nothing there either if they find nothing in the text alone. Parentheses themselves
are an exception, and so are malformed strings, whose faults may lie at the end of the text.
-/

set_option autoImplicit false

namespace Mixfix

/-! ## Places in longer texts -/

/-- A span farther on in a text. -/
def Span.shifted (lead : Nat) (span : Span) : Span := ⟨lead + span.start, lead + span.stop⟩

section Embedded

variable {α : Type} {lead count : Nat} {tail : List Char} {cursor : Cursor}

/-- The same place in a text that stands behind some bytes and before other characters. -/
def Cursor.embedded (lead : Nat) (tail : List Char) (cursor : Cursor) : Cursor :=
  ⟨lead + cursor.offset, cursor.rest ++ tail⟩

@[simp]
theorem Cursor.rest_embedded (cursor : Cursor) :
    (cursor.embedded lead tail).rest = cursor.rest ++ tail :=
  rfl

theorem Cursor.advance_embedded (within : count ≤ cursor.rest.length) :
    (cursor.embedded lead tail).advance count = (cursor.advance count).embedded lead tail := by
  simp only [advance, embedded, List.take_append_of_le_length within,
    List.drop_append_of_le_length within, Nat.add_assoc]

/-- The same lexeme in a text that stands behind some bytes and before other characters. -/
def Lexeme.embedded (lead : Nat) (tail : List Char) (lexeme : Lexeme α) : Lexeme α :=
  ⟨lexeme.content, lexeme.span.shifted lead, lexeme.next.embedded lead tail⟩

theorem Lexeme.ahead_embedded (within : count ≤ cursor.rest.length) (content : α) :
    ahead (cursor.embedded lead tail) count content =
      (ahead cursor count content).embedded lead tail := by
  rw [ahead, Cursor.advance_embedded within]
  rfl

end Embedded

/-! ## Enclosures -/

/-- What stands around a text: some bytes before it, and behind it a parenthesis or nothing. What
follows the parenthesis is of no concern. -/
structure Enclosure where
  lead : Nat
  tail : List Char
  parenthesis : ∀ c ∈ tail.head?, c = '(' ∨ c = ')'

namespace Enclosure

/-- Some bytes before a text and nothing behind it. -/
def leading (lead : Nat) : Enclosure := ⟨lead, [], by simp⟩

variable (enclosure : Enclosure) {test : Char → Bool}

theorem tail_eq : enclosure.tail = [] ∨ (∃ rest, enclosure.tail = '(' :: rest) ∨
    ∃ rest, enclosure.tail = ')' :: rest := by
  obtain ⟨lead, tail, parenthesis⟩ := enclosure
  cases tail with
  | nil => exact .inl rfl
  | cons c rest =>
      rcases parenthesis c rfl with rfl | rfl
      · exact .inr (.inl ⟨rest, rfl⟩)
      · exact .inr (.inr ⟨rest, rfl⟩)

/-- Characters that are taken as long as they satisfy a test end before a parenthesis. -/
theorem takeWhile_append (refused : test '(' = false ∧ test ')' = false) (text : List Char) :
    (text ++ enclosure.tail).takeWhile test = text.takeWhile test := by
  induction text with
  | nil =>
      rcases enclosure.tail_eq with same | ⟨rest, same⟩ | ⟨rest, same⟩ <;> simp [same, refused]
  | cons c text ih =>
      rw [List.cons_append, List.takeWhile_cons, List.takeWhile_cons, ih]

theorem dropWhile_append (refused : test '(' = false ∧ test ')' = false) (text : List Char) :
    (text ++ enclosure.tail).dropWhile test = text.dropWhile test ++ enclosure.tail := by
  induction text with
  | nil =>
      rcases enclosure.tail_eq with same | ⟨rest, same⟩ | ⟨rest, same⟩ <;> simp [same, refused]
  | cons c text ih =>
      rw [List.cons_append, List.dropWhile_cons, List.dropWhile_cons, ih]
      split <;> rfl

/-- A text without parentheses starts what is enclosed if it starts the text itself. -/
theorem prefix_append {wanted : List Char} (without : '(' ∉ wanted ∧ ')' ∉ wanted)
    (text : List Char) : wanted <+: text ++ enclosure.tail ↔ wanted <+: text := by
  induction text generalizing wanted with
  | nil =>
      rw [List.nil_append, List.prefix_nil]
      constructor
      · intro begins
        cases wanted with
        | nil => rfl
        | cons first wanted =>
            exfalso
            rcases enclosure.tail_eq with same | ⟨rest, same⟩ | ⟨rest, same⟩
            · rw [same, List.prefix_nil] at begins
              cases begins
            · rw [same, List.cons_prefix_cons] at begins
              exact without.1 (begins.1 ▸ List.mem_cons_self)
            · rw [same, List.cons_prefix_cons] at begins
              exact without.2 (begins.1 ▸ List.mem_cons_self)
      · rintro rfl
        exact List.nil_prefix
  | cons c text ih =>
      cases wanted with
      | nil => simp
      | cons first wanted =>
          rw [List.cons_append, List.cons_prefix_cons, List.cons_prefix_cons,
            ih ⟨fun mem => without.1 (List.mem_cons_of_mem _ mem),
              fun mem => without.2 (List.mem_cons_of_mem _ mem)⟩]

theorem takeWhile_word (text : List Char) :
    (text ++ enclosure.tail).takeWhile Lexeme.isWordChar = text.takeWhile Lexeme.isWordChar :=
  enclosure.takeWhile_append (by decide) text

/-- No word goes on with what stands behind the text. -/
theorem head_append (refused : test '(' = false ∧ test ')' = false) (text : List Char) :
    (text ++ enclosure.tail).head?.any test = text.head?.any test := by
  cases text with
  | nil =>
      rcases enclosure.tail_eq with same | ⟨rest, same⟩ | ⟨rest, same⟩ <;> simp [same, refused]
  | cons c text => rfl

end Enclosure

variable (enclosure : Enclosure)

namespace Cursor

/-- The same place in an enclosed text. -/
def enclosed (cursor : Cursor) : Cursor :=
  ⟨enclosure.lead + cursor.offset, cursor.rest ++ enclosure.tail⟩

variable {cursor : Cursor} {count : Nat}

theorem advance_enclosed (within : count ≤ cursor.rest.length) :
    (cursor.enclosed enclosure).advance count = (cursor.advance count).enclosed enclosure :=
  advance_embedded within

@[simp]
theorem skipBlanks_enclosed (cursor : Cursor) :
    (cursor.enclosed enclosure).skipBlanks = cursor.skipBlanks.enclosed enclosure := by
  have same : (cursor.enclosed enclosure).rest.takeWhile isBlank = cursor.rest.takeWhile isBlank :=
    enclosure.takeWhile_append (by decide) cursor.rest
  rw [skipBlanks, skipWhile, same]
  exact advance_enclosed enclosure (List.takeWhile_sublist _).length_le

end Cursor

namespace Lexeme

variable {α : Type}

/-- The same lexeme in an enclosed text. -/
def enclosed (lexeme : Lexeme α) : Lexeme α :=
  ⟨lexeme.content, lexeme.span.shifted enclosure.lead, lexeme.next.enclosed enclosure⟩

variable {cursor : Cursor} {count : Nat}

theorem ahead_enclosed (within : count ≤ cursor.rest.length) (content : α) :
    ahead (cursor.enclosed enclosure) count content =
      (ahead cursor count content).enclosed enclosure :=
  ahead_embedded within content

/-! ## Exact texts and words -/

theorem standsAt_enclosed {text : List Char} (without : '(' ∉ text ∧ ')' ∉ text) (cursor : Cursor) :
    standsAt text (cursor.enclosed enclosure) = standsAt text cursor := by
  have begins : text.isPrefixOf (cursor.rest ++ enclosure.tail) = text.isPrefixOf cursor.rest := by
    rw [Bool.eq_iff_iff, List.isPrefixOf_iff_prefix, List.isPrefixOf_iff_prefix]
    exact enclosure.prefix_append without cursor.rest
  rw [standsAt, standsAt, Cursor.enclosed, begins]
  cases stands : text.isPrefixOf cursor.rest with
  | false => rfl
  | true =>
      have within := (List.isPrefixOf_iff_prefix.mp stands).length_le
      rw [List.drop_append_of_le_length within, endsAt, endsAt,
        enclosure.head_append (by decide)]

/-- A text that may end anywhere: it does not end in a word character. -/
def IsMark (text : String) : Prop := text ≠ "" ∧ text.toList.getLast?.any isWordChar = false

theorem IsMark.standsAt_iff {text : String} (mark : IsMark text) {cursor : Cursor} :
    standsAt text.toList cursor = true ↔ text.toList <+: cursor.rest := by
  rw [standsAt, endsAt, mark.2, Bool.and_eq_true, List.isPrefixOf_iff_prefix]
  exact and_iff_left rfl

/-- The texts of which a parenthesis is a part are parentheses. -/
def KeepsParens (tokens : List String) : Prop :=
  ∀ token ∈ tokens, '(' ∈ token.toList ∨ ')' ∈ token.toList → token = "(" ∨ token = ")"

theorem isShadowed_enclosed {tokens : List String} (keeps : KeepsParens tokens) {text : List Char}
    (nonempty : text ≠ []) (cursor : Cursor) :
    isShadowed tokens text (cursor.enclosed enclosure) = isShadowed tokens text cursor := by
  unfold isShadowed
  rw [Bool.eq_iff_iff, List.any_eq_true, List.any_eq_true]
  refine exists_congr fun token => and_congr_right fun registered => ?_
  dsimp only
  by_cases paren : '(' ∈ token.toList ∨ ')' ∈ token.toList
  · -- nothing is longer than one character in it
    have single : token.toList.length = 1 := by
      rcases keeps token registered paren with rfl | rfl <;> rfl
    have positive := List.length_pos_iff.mpr nonempty
    have short : decide (text.length < token.toList.length) = false :=
      decide_eq_false (by omega)
    rw [short, Bool.false_and, Bool.false_and, Bool.false_and]
  · rw [standsAt_enclosed enclosure (not_or.mp paren)]

theorem token?_enclosed {tokens : List String} (keeps : KeepsParens tokens) {text : String}
    (nonempty : text ≠ "") (without : '(' ∉ text.toList ∧ ')' ∉ text.toList) (cursor : Cursor) :
    token? tokens text (cursor.enclosed enclosure) =
      (token? tokens text cursor).map (enclosed enclosure) := by
  have chars : text.toList ≠ [] := fun empty => nonempty (String.toList_eq_nil_iff.mp empty)
  simp only [token?, Cursor.skipBlanks_enclosed, standsAt_enclosed enclosure without,
    isShadowed_enclosed enclosure keeps chars]
  split
  · next stands =>
      rw [Bool.and_eq_true] at stands
      rw [ahead_enclosed enclosure (length_le_of_standsAt stands.1)]
      rfl
  · rfl

/-- A mark is found where it was found before. -/
theorem token?_mark_enclosed {tokens : List String} (keeps : KeepsParens tokens) {text : String}
    (mark : IsMark text) {lexeme : Lexeme String}
    (found : token? tokens text cursor = some lexeme) :
    token? tokens text (cursor.enclosed enclosure) = some (lexeme.enclosed enclosure) := by
  have chars : text.toList ≠ [] := fun empty => mark.1 (String.toList_eq_nil_iff.mp empty)
  obtain ⟨stands, clear, rfl⟩ := token?_eq_some_iff.mp found
  rw [token?_eq_some_iff, Cursor.skipBlanks_enclosed, isShadowed_enclosed enclosure keeps chars,
    mark.standsAt_iff]
  refine ⟨?_, clear, (ahead_enclosed enclosure (length_le_of_standsAt stands) _).symm⟩
  exact (prefix_of_standsAt stands).trans (List.prefix_append _ enclosure.tail)

theorem keyword?_enclosed (keyword : Keyword) (cursor : Cursor) :
    keyword? keyword (cursor.enclosed enclosure) =
      (keyword? keyword cursor).map (enclosed enclosure) := by
  have without : '(' ∉ keyword.text.toList ∧ ')' ∉ keyword.text.toList := by
    cases keyword <;> decide
  simp only [keyword?, Cursor.skipBlanks_enclosed, standsAt_enclosed enclosure without]
  split
  · next stands => rw [ahead_enclosed enclosure (length_le_of_standsAt stands)]; rfl
  · rfl

theorem identifier?_enclosed (cursor : Cursor) :
    identifier? (cursor.enclosed enclosure) =
      (identifier? cursor).map (enclosed enclosure) := by
  have letters : Unicode.isAlphabetic '(' = false ∧ Unicode.isAlphabetic ')' = false := by decide
  simp only [identifier?, Cursor.skipBlanks_enclosed]
  generalize cursor.skipBlanks = start
  obtain ⟨offset, rest⟩ := start
  cases rest with
  | nil =>
      rcases enclosure.tail_eq with same | ⟨rest, same⟩ | ⟨rest, same⟩ <;>
        simp [Cursor.enclosed, same, letters]
  | cons c rest =>
      have word := enclosure.takeWhile_word (c :: rest)
      have same := ahead_enclosed enclosure (show _ ≤ (Cursor.mk offset (c :: rest)).rest.length from
        (List.takeWhile_sublist isWordChar).length_le)
        (String.ofList ((c :: rest).takeWhile isWordChar))
      simp only [Cursor.enclosed, List.cons_append] at same word ⊢
      rw [word, same]
      split <;> rfl

theorem segment?_eq_none_of_rest {cursor : Cursor}
    (other : ∀ c rest, cursor.rest = '.' :: c :: rest → Unicode.isAlphabetic c = false) :
    segment? cursor = none := by
  unfold segment?
  split
  · next c rest same => rw [if_neg (by rw [other c rest same]; decide)]
  · rfl

theorem segment?_enclosed (cursor : Cursor) :
    segment? (cursor.enclosed enclosure) = (segment? cursor).map (enclosed enclosure) := by
  have letters : Unicode.isAlphabetic '(' = false ∧ Unicode.isAlphabetic ')' = false := by decide
  obtain ⟨offset, rest⟩ := cursor
  by_cases begins : ∃ c behind, rest = '.' :: c :: behind
  · obtain ⟨c, behind, rfl⟩ := begins
    have word := enclosure.takeWhile_word (c :: behind)
    have within := (List.takeWhile_sublist isWordChar (l := c :: behind)).length_le
    have same := ahead_enclosed enclosure
      (show _ ≤ (Cursor.mk offset ('.' :: c :: behind)).rest.length from Nat.succ_le_succ within)
      (String.ofList ((c :: behind).takeWhile isWordChar))
    simp only [segment?, Cursor.enclosed, List.cons_append] at same word ⊢
    rw [word, same]
    split <;> rfl
  · have nothing : segment? ⟨offset, rest⟩ = none :=
      segment?_eq_none_of_rest fun c behind same => absurd ⟨c, behind, same⟩ begins
    rw [nothing]
    refine segment?_eq_none_of_rest fun c behind same => ?_
    -- the point, if there is one, is the last character of the text
    rcases rest with _ | ⟨first, _ | ⟨second, rest⟩⟩
    · have tail : enclosure.tail = '.' :: c :: behind := same
      rcases enclosure.tail_eq with other | ⟨rest, other⟩ | ⟨rest, other⟩ <;>
        cases tail.symm.trans other
    · have tail : enclosure.tail = c :: behind := (List.cons.inj same).2
      rcases enclosure.tail_eq with other | ⟨rest, other⟩ | ⟨rest, other⟩ <;>
        cases tail.symm.trans other
      · exact letters.1
      · exact letters.2
    · obtain ⟨rfl, tail⟩ := List.cons.inj same
      obtain ⟨rfl, _⟩ := List.cons.inj tail
      exact absurd ⟨second, rest, rfl⟩ begins

/-! ## Numbers -/

theorem splitDigits_append_tail (text : List Char) :
    splitDigits (text ++ enclosure.tail) =
      ((splitDigits text).1, (splitDigits text).2 ++ enclosure.tail) := by
  rw [splitDigits, splitDigits, enclosure.takeWhile_append (by decide),
    enclosure.dropWhile_append (by decide)]

theorem splitMinus_of_ne {c : Char} (other : c ≠ '-') (rest : List Char) :
    splitMinus (c :: rest) = (false, c :: rest) := by
  unfold splitMinus
  split
  · next same => exact absurd (List.cons.inj same).1 other
  · rfl

theorem splitMinus_cons_append (c : Char) (text behind : List Char) :
    splitMinus (c :: text ++ behind) =
      ((splitMinus (c :: text)).1, (splitMinus (c :: text)).2 ++ behind) := by
  by_cases minus : c = '-'
  · subst minus
    rfl
  · rw [List.cons_append, splitMinus_of_ne minus, splitMinus_of_ne minus]
    rfl

theorem splitMinus_append_tail (text : List Char) :
    splitMinus (text ++ enclosure.tail) =
      ((splitMinus text).1, (splitMinus text).2 ++ enclosure.tail) := by
  cases text with
  | nil => rcases enclosure.tail_eq with same | ⟨rest, same⟩ | ⟨rest, same⟩ <;> rw [same] <;> rfl
  | cons c text => exact splitMinus_cons_append c text enclosure.tail

theorem splitSign_of_ne {c : Char} (plus : c ≠ '+') (minus : c ≠ '-') (rest : List Char) :
    splitSign (c :: rest) = (false, c :: rest) := by
  unfold splitSign
  split
  · next same => exact absurd (List.cons.inj same).1 plus
  · next same => exact absurd (List.cons.inj same).1 minus
  · rfl

theorem splitSign_cons_append (c : Char) (text behind : List Char) :
    splitSign (c :: text ++ behind) =
      ((splitSign (c :: text)).1, (splitSign (c :: text)).2 ++ behind) := by
  by_cases plus : c = '+'
  · subst plus
    rfl
  · by_cases minus : c = '-'
    · subst minus
      rfl
    · rw [List.cons_append, splitSign_of_ne plus minus, splitSign_of_ne plus minus]
      rfl

theorem splitSign_append_tail (text : List Char) :
    splitSign (text ++ enclosure.tail) =
      ((splitSign text).1, (splitSign text).2 ++ enclosure.tail) := by
  cases text with
  | nil => rcases enclosure.tail_eq with same | ⟨rest, same⟩ | ⟨rest, same⟩ <;> rw [same] <;> rfl
  | cons c text => exact splitSign_cons_append c text enclosure.tail

theorem splitFraction_of_ne {c : Char} (other : c ≠ '.') (rest : List Char) :
    splitFraction (c :: rest) = ([], c :: rest) := by
  unfold splitFraction
  split
  · next same => exact absurd (List.cons.inj same).1 other
  · rfl

theorem splitFraction_append_tail (text : List Char) :
    splitFraction (text ++ enclosure.tail) =
      ((splitFraction text).1, (splitFraction text).2 ++ enclosure.tail) := by
  cases text with
  | nil => rcases enclosure.tail_eq with same | ⟨rest, same⟩ | ⟨rest, same⟩ <;> rw [same] <;> rfl
  | cons c text =>
      by_cases point : c = '.'
      · subst point
        simp only [List.cons_append, splitFraction, splitDigits_append_tail]
        rcases splitDigits text with ⟨_ | ⟨digit, digits⟩, behind⟩ <;> rfl
      · rw [List.cons_append, splitFraction_of_ne point, splitFraction_of_ne point]
        rfl

theorem splitExponent_append_tail (text : List Char) :
    splitExponent (text ++ enclosure.tail) =
      ((splitExponent text).1, (splitExponent text).2 ++ enclosure.tail) := by
  cases text with
  | nil => rcases enclosure.tail_eq with same | ⟨rest, same⟩ | ⟨rest, same⟩ <;> rw [same] <;> rfl
  | cons mark text =>
      simp only [List.cons_append, splitExponent, splitSign_append_tail, splitDigits_append_tail]
      split
      · rcases splitDigits (splitSign text).2 with ⟨_ | ⟨digit, digits⟩, behind⟩ <;> rfl
      · rfl

theorem splitNumber_append_tail (text : List Char) :
    splitNumber (text ++ enclosure.tail) =
      (splitNumber text).map fun (parts, behind) => (parts, behind ++ enclosure.tail) := by
  simp only [splitNumber, splitMinus_append_tail, splitDigits_append_tail]
  rcases splitDigits (splitMinus text).2 with ⟨_ | ⟨digit, digits⟩, behind⟩
  · rfl
  · simp only [splitFraction_append_tail, splitExponent_append_tail]
    rfl

theorem number?_enclosed (cursor : Cursor) :
    number? (cursor.enclosed enclosure) = (number? cursor).map (enclosed enclosure) := by
  simp only [number?, Cursor.skipBlanks_enclosed]
  generalize cursor.skipBlanks = start
  have divided := splitNumber_append_tail enclosure start.rest
  rw [show (start.enclosed enclosure).rest = start.rest ++ enclosure.tail from rfl, divided]
  cases whole : splitNumber start.rest with
  | none => rfl
  | some divided =>
      obtain ⟨parts, behind⟩ := divided
      have shorter := length_splitNumber whole
      have count : (start.rest ++ enclosure.tail).length - (behind ++ enclosure.tail).length =
          start.rest.length - behind.length := by
        simp only [List.length_append]
        omega
      simp only [Option.map_some, count]
      rw [ahead_enclosed enclosure (Nat.sub_le _ _)]

/-! ## Strings -/

theorem codeUnit?_append {text : List Char} {unit : Nat} (found : codeUnit? text = some unit)
    (behind : List Char) : codeUnit? (text ++ behind) = some unit ∧ 4 ≤ text.length := by
  simp only [codeUnit?] at found
  split at found
  · next whole =>
      rw [Bool.and_eq_true, decide_eq_true_eq, List.length_take] at whole
      have long : 4 ≤ text.length := by omega
      refine ⟨?_, long⟩
      simp only [codeUnit?, List.take_append_of_le_length long]
      rw [if_pos (by rw [Bool.and_eq_true, decide_eq_true_eq, List.length_take]; exact whole)]
      exact found
  · cases found

/-- An escape that is decoded does not depend on what stands behind it. -/
theorem unicodeEscape_append {text : List Char} {c : Char} {length : Nat}
    (decoded : unicodeEscape text = .decoded c length) (behind : List Char) :
    unicodeEscape (text ++ behind) = .decoded c length := by
  unfold unicodeEscape at decoded ⊢
  cases first : codeUnit? text with
  | none =>
      rw [first] at decoded
      cases decoded
  | some unit =>
      obtain ⟨same, long⟩ := codeUnit?_append first behind
      rw [first] at decoded
      rw [same]
      dsimp only at decoded ⊢
      split
      · next leading =>
          rw [if_pos leading] at decoded
          split at decoded
          · next second rest =>
              rw [List.drop_append_of_le_length long, rest]
              cases low : codeUnit? second with
              | none =>
                  rw [low] at decoded
                  cases decoded
              | some trailing =>
                  rw [low] at decoded
                  simp only [List.cons_append, (codeUnit?_append low behind).1]
                  exact decoded
          · cases decoded
      · next single =>
          rw [if_neg single] at decoded
          exact decoded

theorem escape_append {text : List Char} {c : Char} {length : Nat}
    (decoded : escape text = .decoded c length) (behind : List Char) :
    escape (text ++ behind) = .decoded c length := by
  cases text with
  | nil => cases decoded
  | cons first text =>
      simp only [List.cons_append, escape] at decoded ⊢
      cases simple : simpleEscape? first with
      | some other =>
          rw [simple] at decoded
          exact decoded
      | none =>
          rw [simple] at decoded
          dsimp only at decoded ⊢
          split
          · next unicode =>
              rw [if_pos unicode] at decoded
              exact unicodeEscape_append decoded behind
          · next other =>
              rw [if_neg other] at decoded
              cases decoded

/-- A closed string does not depend on what stands behind it. -/
theorem scan_append {quote : Char} {rest text : List Char} {place skipped length : Nat}
    (closed : scan quote place skipped rest = .closed text length) (behind : List Char) :
    scan quote place skipped (rest ++ behind) = .closed text length := by
  induction rest generalizing place skipped text with
  | nil => cases closed
  | cons c rest ih =>
      cases skipped with
      | succ skipped => exact ih closed
      | zero =>
          simp only [List.cons_append, scan] at closed ⊢
          split
          · next quoted =>
              rw [if_pos quoted] at closed
              exact closed
          · next unquoted =>
              rw [if_neg unquoted] at closed
              split
              · next backslash =>
                  rw [if_pos backslash] at closed
                  split at closed
                  · next decoded length found =>
                      obtain ⟨inner, rfl, later⟩ := cons_eq_closed.mp closed
                      rw [escape_append found behind]
                      exact cons_eq_closed.mpr ⟨inner, rfl, ih later⟩
                  · cases closed
                  · cases closed
              · next plain =>
                  rw [if_neg plain] at closed
                  obtain ⟨inner, rfl, later⟩ := cons_eq_closed.mp closed
                  exact cons_eq_closed.mpr ⟨inner, rfl, ih later⟩

/-- A string that is found, or that nothing starts like, is found alike in an enclosed text. -/
theorem string?_enclosed {cursor : Cursor} {outcome : Option (Lexeme String)}
    (found : string? cursor = .ok outcome) :
    string? (cursor.enclosed enclosure) = .ok (outcome.map (enclosed enclosure)) := by
  simp only [string?, Cursor.skipBlanks_enclosed] at found ⊢
  generalize cursor.skipBlanks = start at found ⊢
  obtain ⟨offset, rest⟩ := start
  cases rest with
  | nil =>
      cases found
      rcases enclosure.tail_eq with same | ⟨rest, same⟩ | ⟨rest, same⟩ <;>
        simp [Cursor.enclosed, same]
  | cons quote rest =>
      simp only [Cursor.enclosed, List.cons_append] at found ⊢
      split
      · next quoted =>
          rw [if_pos quoted] at found
          split at found
          · next text place closed =>
              cases found
              have within := scan_closed closed
              rw [scan_append closed]
              have short : place + 1 ≤ (Cursor.mk offset (quote :: rest)).rest.length := by
                rw [List.length_cons]
                omega
              have same := ahead_enclosed enclosure short (String.ofList text)
              simp only [Cursor.enclosed, List.cons_append] at same
              dsimp only
              rw [same]
              rfl
          · cases found
      · next unquoted =>
          rw [if_neg unquoted] at found
          cases found
          rfl

end Lexeme

end Mixfix
