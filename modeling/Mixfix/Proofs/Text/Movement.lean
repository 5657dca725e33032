import Mixfix.Lexeme.Number
import Mixfix.Lexeme.Quotation
import Mixfix.Lexeme.Word

/-!
# How readers move

A reader that finds its lexeme leaves a cursor behind at least one character of the text ahead, and
the lexeme covers exactly the bytes in between. `Cursor.Reaches` is movement by characters that are
there, `Cursor.Passes` is such a movement past at least one, and `Lexeme.Starts` says both of a
lexeme and the cursor that it starts at. Every reader that skips blanks finds lexemes that start at
the first character that is not blank.
-/

set_option autoImplicit false

namespace Mixfix

namespace Cursor

/-- The second cursor stands behind characters that lie ahead of the first. -/
def Reaches (cursor next : Cursor) : Prop :=
  ∃ count, count ≤ cursor.rest.length ∧ next = cursor.advance count

/-- The second cursor stands behind at least one of the characters ahead of the first. -/
def Passes (cursor next : Cursor) : Prop :=
  ∃ count, 0 < count ∧ count ≤ cursor.rest.length ∧ next = cursor.advance count

theorem length_rest_advance (cursor : Cursor) (count : Nat) :
    (cursor.advance count).rest.length = cursor.rest.length - count := by
  simp [advance]

theorem Reaches.refl (cursor : Cursor) : Reaches cursor cursor :=
  ⟨0, Nat.zero_le _, (advance_zero cursor).symm⟩

theorem Passes.reaches {cursor next : Cursor} (passes : Passes cursor next) :
    Reaches cursor next := by
  obtain ⟨count, _, within, rfl⟩ := passes
  exact ⟨count, within, rfl⟩

theorem Reaches.trans {first second third : Cursor} (start : Reaches first second)
    (further : Reaches second third) : Reaches first third := by
  obtain ⟨count, within, rfl⟩ := start
  obtain ⟨more, withinRest, rfl⟩ := further
  rw [length_rest_advance] at withinRest
  exact ⟨count + more, by omega, advance_advance _ _ _⟩

theorem Reaches.passes {first second third : Cursor} (start : Reaches first second)
    (further : Passes second third) : Passes first third := by
  obtain ⟨count, within, rfl⟩ := start
  obtain ⟨more, positive, withinRest, rfl⟩ := further
  rw [length_rest_advance] at withinRest
  exact ⟨count + more, by omega, by omega, advance_advance _ _ _⟩

theorem Passes.trans_reaches {first second third : Cursor} (start : Passes first second)
    (further : Reaches second third) : Passes first third := by
  obtain ⟨count, positive, within, rfl⟩ := start
  obtain ⟨more, withinRest, rfl⟩ := further
  rw [length_rest_advance] at withinRest
  exact ⟨count + more, by omega, by omega, advance_advance _ _ _⟩

/-- Passing characters leaves fewer of them ahead. -/
theorem Passes.length_lt {cursor next : Cursor} (passes : Passes cursor next) :
    next.rest.length < cursor.rest.length := by
  obtain ⟨count, positive, within, rfl⟩ := passes
  rw [length_rest_advance]
  omega

theorem Reaches.length_le {cursor next : Cursor} (reaches : Reaches cursor next) :
    next.rest.length ≤ cursor.rest.length := by
  obtain ⟨count, _, rfl⟩ := reaches
  rw [length_rest_advance]
  exact Nat.sub_le _ _

/-- Something lies ahead of a cursor that passes characters. -/
theorem Passes.rest_ne_nil {cursor next : Cursor} (passes : Passes cursor next) :
    cursor.rest ≠ [] := by
  obtain ⟨count, positive, within, rfl⟩ := passes
  exact List.length_pos_iff.mp (Nat.lt_of_lt_of_le positive within)

theorem Reaches.offset_le {cursor next : Cursor} (reaches : Reaches cursor next) :
    cursor.offset ≤ next.offset := by
  obtain ⟨count, _, rfl⟩ := reaches
  exact offset_le_advance cursor count

/-- Characters take at least as many bytes as there are. -/
theorem length_le_byteLength (text : List Char) : text.length ≤ byteLength text := by
  induction text with
  | nil => exact Nat.le_refl _
  | cons c text ih =>
      have positive := c.utf8Size_pos
      rw [List.length_cons, byteLength_cons]
      omega

/-- A text that extends another one takes more bytes than this exactly if it is longer. -/
theorem byteLength_lt_iff {text longer : List Char} (extended : text <+: longer) :
    byteLength text < byteLength longer ↔ text.length < longer.length := by
  obtain ⟨more, rfl⟩ := extended
  have bytes := length_le_byteLength more
  rw [byteLength_append, List.length_append]
  cases more with
  | nil => simp [byteLength]
  | cons c more =>
      rw [List.length_cons] at bytes ⊢
      constructor <;> intro <;> omega

theorem Passes.offset_lt {cursor next : Cursor} (passes : Passes cursor next) :
    cursor.offset < next.offset := by
  obtain ⟨count, positive, within, rfl⟩ := passes
  have bytes := length_le_byteLength (cursor.rest.take count)
  rw [List.length_take] at bytes
  simp only [advance]
  omega

theorem reaches_skipWhile (test : Char → Bool) (cursor : Cursor) :
    Reaches cursor (cursor.skipWhile test) :=
  ⟨_, (List.takeWhile_sublist test).length_le, rfl⟩

theorem reaches_skipBlanks (cursor : Cursor) : Reaches cursor cursor.skipBlanks :=
  reaches_skipWhile isBlank cursor

@[simp]
theorem skipBlanks_skipBlanks (cursor : Cursor) :
    cursor.skipBlanks.skipBlanks = cursor.skipBlanks :=
  skipWhile_skipWhile isBlank cursor

/-- A cursor in a text that reaches another one keeps it in the text. -/
theorem LiesIn.reaches {text : String} {cursor next : Cursor} (inside : LiesIn text cursor)
    (reaches : Reaches cursor next) : LiesIn text next := by
  obtain ⟨count, _, rfl⟩ := reaches
  exact inside.advance count

theorem byteLength_eq (text : List Char) :
    byteLength text = (String.ofList text).utf8ByteSize := by
  induction text with
  | nil => rfl
  | cons c text ih =>
      rw [byteLength_cons, ih, String.ofList_cons, String.utf8ByteSize_append,
        String.utf8ByteSize_singleton]

/-- The offset at the end of a text is the count of its bytes. -/
theorem LiesIn.offset_eq {text : String} {cursor : Cursor} (inside : LiesIn text cursor)
    (atEnd : cursor.rest = []) : cursor.offset = text.utf8ByteSize := by
  obtain ⟨before, whole, counted⟩ := inside
  rw [atEnd, List.append_nil] at whole
  rw [counted, ← whole, byteLength_eq, String.ofList_toList]

end Cursor

namespace Lexeme

variable {α : Type}

/-- The lexeme covers the bytes from a cursor to the cursor behind it, at least one character. -/
def Starts (cursor : Cursor) (lexeme : Lexeme α) : Prop :=
  lexeme.span = ⟨cursor.offset, lexeme.next.offset⟩ ∧ cursor.Passes lexeme.next

theorem starts_ahead {cursor : Cursor} {count : Nat} (content : α) (positive : 0 < count)
    (within : count ≤ cursor.rest.length) : Starts cursor (ahead cursor count content) :=
  ⟨rfl, count, positive, within, rfl⟩

theorem Starts.map {β : Type} {cursor : Cursor} {lexeme : Lexeme α} (starts : Starts cursor lexeme)
    (f : α → β) : Starts cursor (lexeme.map f) :=
  starts

/-! ## Exact texts, keywords and words -/

theorem length_le_of_standsAt {text : List Char} {cursor : Cursor}
    (stands : standsAt text cursor = true) : text.length ≤ cursor.rest.length := by
  simp only [standsAt, Bool.and_eq_true, List.isPrefixOf_iff_prefix] at stands
  exact stands.1.length_le

theorem starts_of_token? {tokens : List String} {text : String} {cursor : Cursor}
    {lexeme : Lexeme String} (nonempty : text ≠ "")
    (found : token? tokens text cursor = some lexeme) :
    Starts cursor.skipBlanks lexeme := by
  simp only [token?] at found
  split at found
  · next stands =>
      cases found
      rw [Bool.and_eq_true] at stands
      refine starts_ahead text ?_ (length_le_of_standsAt stands.1)
      rw [List.length_pos_iff]
      exact fun empty => nonempty (String.toList_eq_nil_iff.mp empty)
  · cases found

theorem starts_of_keyword? {keyword : Keyword} {cursor : Cursor} {lexeme : Lexeme Keyword}
    (found : keyword? keyword cursor = some lexeme) : Starts cursor.skipBlanks lexeme := by
  simp only [keyword?] at found
  split at found
  · next stands =>
      cases found
      exact starts_ahead keyword (by cases keyword <;> decide) (length_le_of_standsAt stands)
  · cases found

theorem isWordChar_of_isAlphabetic {c : Char} (letter : Unicode.isAlphabetic c = true) :
    isWordChar c = true := by
  simp [isWordChar, letter]

theorem starts_of_segment? {cursor : Cursor} {lexeme : Lexeme String}
    (found : segment? cursor = some lexeme) : Starts cursor lexeme := by
  simp only [segment?] at found
  split at found
  · next c rest ahead =>
      split at found
      · cases found
        refine starts_ahead _ (Nat.succ_pos _) ?_
        have within := (List.takeWhile_sublist isWordChar (l := c :: rest)).length_le
        simpa [ahead] using within
      · cases found
  · cases found

/-! ## Numbers -/

theorem length_splitMinus (text : List Char) : (splitMinus text).2.length ≤ text.length := by
  unfold splitMinus
  split <;> simp

theorem length_splitDigits (text : List Char) :
    (splitDigits text).1.length + (splitDigits text).2.length = text.length := by
  rw [← List.length_append, splitDigits_append]

theorem length_splitFraction (text : List Char) :
    (splitFraction text).2.length ≤ text.length := by
  unfold splitFraction
  split
  · next rest =>
      have digits := length_splitDigits rest
      split
      · simp
      · next whole behind _ divided =>
          rw [divided] at digits
          simp only [List.length_cons] at digits ⊢
          omega
  · simp

theorem length_splitSign (text : List Char) : (splitSign text).2.length ≤ text.length := by
  unfold splitSign
  split <;> simp

theorem length_splitExponent (text : List Char) :
    (splitExponent text).2.length ≤ text.length := by
  unfold splitExponent
  split
  · simp
  · next mark rest =>
      split
      · have unsigned := length_splitSign rest
        have digits := length_splitDigits (splitSign rest).2
        dsimp only
        split
        · simp
        · next behind _ divided =>
            rw [divided] at digits
            simp only [List.length_cons] at digits ⊢
            omega
      · simp

/-- Behind a number less text is left. -/
theorem length_splitNumber {text behind : List Char} {parts : NumberParts}
    (divided : splitNumber text = some (parts, behind)) : behind.length < text.length := by
  simp only [splitNumber] at divided
  have unsigned := length_splitMinus text
  have digits := length_splitDigits (splitMinus text).2
  split at divided
  · cases divided
  · next whole afterWhole notEmpty split =>
      cases divided
      have fraction := length_splitFraction afterWhole
      have exponent := length_splitExponent (splitFraction afterWhole).2
      have positive : 0 < whole.length := List.length_pos_iff.mpr notEmpty
      rw [split] at digits
      simp only at digits
      omega

theorem starts_of_number? {cursor : Cursor} {lexeme : Lexeme Value}
    (found : number? cursor = some lexeme) : Starts cursor.skipBlanks lexeme := by
  simp only [number?] at found
  split at found
  · next parts behind divided =>
      cases found
      have shorter := length_splitNumber divided
      exact starts_ahead _ (by omega) (by omega)
  · cases found

/-! ## Strings -/

theorem cons_eq_closed {c : Char} {outcome : Scan} {text : List Char} {length : Nat} :
    outcome.cons c = .closed text length ↔
      ∃ inner, text = c :: inner ∧ outcome = .closed inner length := by
  cases outcome with
  | closed inner place =>
      simp only [Scan.cons, Scan.closed.injEq]
      constructor
      · rintro ⟨rfl, rfl⟩
        exact ⟨inner, rfl, rfl, rfl⟩
      · rintro ⟨_, rfl, rfl, rfl⟩
        exact ⟨rfl, rfl⟩
  | faulty => simp [Scan.cons]

/-- The closing quote of a string lies among the characters that were scanned. -/
theorem scan_closed {quote : Char} {rest text : List Char} {place skipped length : Nat}
    (closed : scan quote place skipped rest = .closed text length) :
    place ≤ length ∧ length < place + rest.length := by
  induction rest generalizing place skipped text with
  | nil => simp [scan] at closed
  | cons c rest ih =>
      cases skipped with
      | succ skipped =>
          have := ih closed
          simp only [List.length_cons]
          omega
      | zero =>
          simp only [scan] at closed
          split at closed
          · cases closed
            simp
          · split at closed
            · split at closed
              · obtain ⟨inner, _, same⟩ := cons_eq_closed.mp closed
                have := ih same
                simp only [List.length_cons]
                omega
              · cases closed
              · cases closed
            · obtain ⟨inner, _, same⟩ := cons_eq_closed.mp closed
              have := ih same
              simp only [List.length_cons]
              omega

theorem starts_of_string? {cursor : Cursor} {lexeme : Lexeme String}
    (found : string? cursor = .ok (some lexeme)) : Starts cursor.skipBlanks lexeme := by
  simp only [string?] at found
  split at found
  · cases found
  · next quote rest ahead =>
      split at found
      · split at found
        · next text place closed =>
            cases found
            have within := scan_closed closed
            refine starts_ahead _ (Nat.succ_pos _) ?_
            simp only [ahead, List.length_cons]
            omega
        · cases found
      · cases found

end Lexeme

end Mixfix
