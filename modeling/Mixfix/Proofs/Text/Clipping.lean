import Mixfix.Proofs.Parse.References
import Mixfix.Proofs.Text.Enclosure

/-!
# Pieces cut out of a text

A reader looks at no more of a text than its lexeme and the character behind it. So what it finds in
the middle of a text, with its end within a piece of this text, it finds in the piece alone: there
the text ends where another character stood, and the end of the text ends every lexeme.

This is said of a place in a piece and of the same place in the text that the piece was cut from
(`Cursor.embedded`). What is found in the text is assumed to end within the piece, that is, at least
what stands behind the piece is left behind it. That nothing is found carries over where something
lies ahead in the piece.
-/

set_option autoImplicit false

namespace Mixfix

variable {lead : Nat} {tail : List Char} {test : Char → Bool}

/-- Characters that are taken from a text and end within a piece of it are taken from the piece. -/
theorem takeWhile_clip {text : List Char}
    (inside : tail.length ≤ ((text ++ tail).dropWhile test).length) :
    (text ++ tail).takeWhile test = text.takeWhile test ∧
      (text ++ tail).dropWhile test = text.dropWhile test ++ tail := by
  induction text with
  | nil =>
      have kept : tail.dropWhile test = tail :=
        (List.dropWhile_suffix test).eq_of_length_le inside
      have split : tail.takeWhile test ++ tail.dropWhile test = tail :=
        List.takeWhile_append_dropWhile
      rw [kept] at split
      exact ⟨List.append_left_eq_self.mp split, kept⟩
  | cons c text ih =>
      rw [List.cons_append] at inside ⊢
      by_cases holds : test c = true
      · rw [List.dropWhile_cons_of_pos holds] at inside
        obtain ⟨taken, left⟩ := ih inside
        rw [List.takeWhile_cons_of_pos holds, List.dropWhile_cons_of_pos holds, taken, left,
          List.takeWhile_cons_of_pos holds, List.dropWhile_cons_of_pos holds]
        exact ⟨rfl, rfl⟩
      · rw [List.takeWhile_cons_of_neg holds, List.dropWhile_cons_of_neg holds,
          List.takeWhile_cons_of_neg holds, List.dropWhile_cons_of_neg holds]
        exact ⟨rfl, rfl⟩

namespace Cursor

variable {cursor next : Cursor} {count : Nat}

theorem length_le_rest_embedded (cursor : Cursor) :
    tail.length ≤ (cursor.embedded lead tail).rest.length := by
  rw [rest_embedded, List.length_append]
  exact Nat.le_add_left _ _

theorem embedded_injective (same : cursor.embedded lead tail = next.embedded lead tail) :
    cursor = next := by
  obtain ⟨offset, rest⟩ := cursor
  obtain ⟨offset', rest'⟩ := next
  simp only [embedded, mk.injEq, Nat.add_left_cancel_iff, List.append_cancel_right_eq] at same
  rw [same.1, same.2]

/-- A cursor that is reached before the end of a piece stands in the piece. -/
theorem exists_embedded (reaches : (cursor.embedded lead tail).Reaches next)
    (inside : tail.length ≤ next.rest.length) :
    ∃ clipped, next = clipped.embedded lead tail ∧ cursor.Reaches clipped := by
  obtain ⟨count, within, rfl⟩ := reaches
  rw [length_rest_advance] at inside
  simp only [embedded, List.length_append] at inside within
  have short : count ≤ cursor.rest.length := by omega
  exact ⟨cursor.advance count, advance_embedded short, count, short, rfl⟩

theorem skipBlanks_embedded
    (inside : tail.length ≤ (cursor.embedded lead tail).skipBlanks.rest.length) :
    (cursor.embedded lead tail).skipBlanks = cursor.skipBlanks.embedded lead tail := by
  rw [skipBlanks, rest_skipWhile] at inside
  have taken : (cursor.rest ++ tail).takeWhile isBlank = cursor.rest.takeWhile isBlank :=
    (takeWhile_clip inside).1
  rw [skipBlanks, skipWhile, rest_embedded, taken]
  exact advance_embedded (List.takeWhile_sublist _).length_le

/-- Where something lies ahead in a piece the same lies ahead in the text. -/
theorem skipBlanks_embedded_of_ne_nil (something : cursor.skipBlanks.rest ≠ []) :
    (cursor.embedded lead tail).skipBlanks = cursor.skipBlanks.embedded lead tail := by
  refine skipBlanks_embedded ?_
  rw [skipBlanks, rest_skipWhile] at something ⊢
  rw [rest_embedded, List.dropWhile_append, if_neg (by simpa using something), List.length_append]
  exact Nat.le_add_left _ _

end Cursor

namespace Lexeme

variable {α : Type} {cursor : Cursor} {count : Nat}

/-- A lexeme that ends within a piece starts in it, behind blanks of the piece. -/
theorem Starts.skipBlanks_embedded {lexeme : Lexeme α}
    (starts : Starts (cursor.embedded lead tail).skipBlanks lexeme)
    (inside : tail.length ≤ lexeme.next.rest.length) :
    (cursor.embedded lead tail).skipBlanks = cursor.skipBlanks.embedded lead tail :=
  Cursor.skipBlanks_embedded (Nat.le_trans inside (Nat.le_of_lt starts.2.length_lt))

/-- A lexeme of some characters that ends within a piece has no more of them than the piece. -/
theorem length_le_of_ahead {content : α}
    (inside : tail.length ≤ (ahead (cursor.embedded lead tail) count content).next.rest.length)
    (within : count ≤ (cursor.embedded lead tail).rest.length) : count ≤ cursor.rest.length := by
  simp only [ahead, Cursor.length_rest_advance] at inside
  simp only [Cursor.embedded, List.length_append] at inside within
  omega

/-! ## Exact texts -/

theorem token?_clip {tokens : List String} (marks : ∀ token ∈ tokens, IsMark token) {text : String}
    (registered : text ∈ tokens) {lexeme : Lexeme String}
    (found : token? tokens text (cursor.embedded lead tail) = some lexeme)
    (inside : tail.length ≤ lexeme.next.rest.length) :
    ∃ clipped, token? tokens text cursor = some clipped ∧ lexeme = clipped.embedded lead tail := by
  have mark := marks text registered
  have skipped := (starts_of_token? mark.1 found).skipBlanks_embedded inside
  obtain ⟨stands, clear, rfl⟩ := token?_eq_some_iff.mp found
  rw [skipped] at stands clear inside ⊢
  have short := length_le_of_ahead inside (length_le_of_standsAt stands)
  have begins : text.toList <+: cursor.skipBlanks.rest :=
    List.prefix_of_prefix_length_le (mark.standsAt_iff.mp stands) (List.prefix_append _ tail) short
  refine ⟨_, token?_eq_some_iff.mpr ⟨mark.standsAt_iff.mpr begins, ?_, rfl⟩, ahead_embedded short _⟩
  -- a longer text that stands in the piece stands in the whole text
  rw [isShadowed, List.any_eq_false] at clear ⊢
  intro longer known shadows
  refine clear longer known ?_
  simp only [Bool.and_eq_true] at shadows ⊢
  refine ⟨shadows.1, (marks longer known).standsAt_iff.mpr ?_⟩
  exact ((marks longer known).standsAt_iff.mp shadows.2).trans (List.prefix_append _ tail)

/-! ## Words -/

/-- The same keywords stand in a text and in a piece of it, if the word that is ahead ends within
the piece. -/
theorem keyword?_clip (keyword : Keyword)
    (inside : tail.length ≤
      ((cursor.embedded lead tail).skipBlanks.rest.dropWhile isWordChar).length) :
    keyword? keyword (cursor.embedded lead tail) =
      (keyword? keyword cursor).map (embedded lead tail) := by
  have skipped : (cursor.embedded lead tail).skipBlanks = cursor.skipBlanks.embedded lead tail :=
    Cursor.skipBlanks_embedded (Nat.le_trans inside (List.dropWhile_suffix _).length_le)
  rw [skipped] at inside
  have word : (cursor.skipBlanks.rest ++ tail).takeWhile isWordChar =
      cursor.skipBlanks.rest.takeWhile isWordChar :=
    (takeWhile_clip inside).1
  have stands : standsAt keyword.text.toList (cursor.skipBlanks.embedded lead tail) =
      standsAt keyword.text.toList cursor.skipBlanks := by
    rw [Bool.eq_iff_iff, Parse.standsAt_keyword_iff, Parse.standsAt_keyword_iff, Cursor.embedded,
      word]
  simp only [keyword?, skipped, stands]
  split
  · next found => rw [ahead_embedded (length_le_of_standsAt found)]; rfl
  · rfl

theorem identifier?_eq_some_iff {lexeme : Lexeme String} :
    identifier? cursor = some lexeme ↔
      (∃ c rest, cursor.skipBlanks.rest = c :: rest ∧ Unicode.isAlphabetic c = true) ∧
        lexeme = ahead cursor.skipBlanks (cursor.skipBlanks.rest.takeWhile isWordChar).length
          (String.ofList (cursor.skipBlanks.rest.takeWhile isWordChar)) := by
  unfold identifier?
  dsimp only
  split
  · next nothing =>
      constructor
      · intro found
        cases found
      · rintro ⟨⟨c, rest, same, _⟩, _⟩
        cases nothing.symm.trans same
  · next c rest same =>
      split
      · next letter =>
          constructor
          · intro found
            exact ⟨⟨c, rest, same, letter⟩, (Option.some.inj found).symm⟩
          · rintro ⟨_, rfl⟩
            rfl
      · next other =>
          constructor
          · intro found
            cases found
          · rintro ⟨⟨_, _, again, letter⟩, _⟩
            cases same.symm.trans again
            exact absurd letter other

/-- Behind an identifier the word has ended. -/
theorem rest_of_identifier? {lexeme : Lexeme String} (found : identifier? cursor = some lexeme) :
    lexeme.next.rest = cursor.skipBlanks.rest.dropWhile isWordChar := by
  obtain ⟨_, rfl⟩ := identifier?_eq_some_iff.mp found
  exact Cursor.rest_skipWhile isWordChar cursor.skipBlanks

theorem identifier?_clip {lexeme : Lexeme String}
    (found : identifier? (cursor.embedded lead tail) = some lexeme)
    (inside : tail.length ≤ lexeme.next.rest.length) :
    ∃ clipped, identifier? cursor = some clipped ∧ lexeme = clipped.embedded lead tail := by
  have behind := rest_of_identifier? found
  rw [behind] at inside
  have skipped : (cursor.embedded lead tail).skipBlanks = cursor.skipBlanks.embedded lead tail :=
    Cursor.skipBlanks_embedded (Nat.le_trans inside (List.dropWhile_suffix _).length_le)
  obtain ⟨⟨c, rest, ahead, letter⟩, rfl⟩ := identifier?_eq_some_iff.mp found
  rw [skipped] at inside ahead ⊢
  have word : (cursor.skipBlanks.rest ++ tail).takeWhile isWordChar =
      cursor.skipBlanks.rest.takeWhile isWordChar :=
    (takeWhile_clip inside).1
  have within := (List.takeWhile_sublist isWordChar (l := cursor.skipBlanks.rest)).length_le
  refine ⟨_, identifier?_eq_some_iff.mpr ⟨?_, rfl⟩, ?_⟩
  · cases own : cursor.skipBlanks.rest with
    | nil =>
        -- the word would start behind the piece
        rw [own, List.nil_append, List.takeWhile_nil] at word
        have first : tail = c :: rest := by
          rw [← ahead, Cursor.embedded, own]
          rfl
        rw [first, List.takeWhile_cons_of_pos (isWordChar_of_isAlphabetic letter)] at word
        cases word
    | cons first text =>
        rw [Cursor.embedded, own] at ahead
        exact ⟨first, text, rfl, (List.cons.inj ahead).1 ▸ letter⟩
  · rw [← ahead_embedded within, ← word]
    rfl

theorem segment?_eq_some_iff {lexeme : Lexeme String} :
    segment? cursor = some lexeme ↔
      ∃ c rest, cursor.rest = '.' :: c :: rest ∧ Unicode.isAlphabetic c = true ∧
        lexeme = ahead cursor (((c :: rest).takeWhile isWordChar).length + 1)
          (String.ofList ((c :: rest).takeWhile isWordChar)) := by
  unfold segment?
  split
  · next c rest same =>
      split
      · next letter =>
          constructor
          · intro found
            exact ⟨c, rest, same, letter, (Option.some.inj found).symm⟩
          · rintro ⟨_, _, again, _, rfl⟩
            cases same.symm.trans again
            rfl
      · next other =>
          constructor
          · intro found
            cases found
          · rintro ⟨_, _, again, letter, _⟩
            cases same.symm.trans again
            exact absurd letter other
  · next other =>
      constructor
      · intro found
        cases found
      · rintro ⟨c, rest, same, _⟩
        exact absurd same (other c rest)

theorem segment?_clip {lexeme : Lexeme String}
    (found : segment? (cursor.embedded lead tail) = some lexeme)
    (inside : tail.length ≤ lexeme.next.rest.length) :
    ∃ clipped, segment? cursor = some clipped ∧ lexeme = clipped.embedded lead tail := by
  obtain ⟨c, rest, same, letter, rfl⟩ := segment?_eq_some_iff.mp found
  have first := isWordChar_of_isAlphabetic letter
  have behind : (ahead (cursor.embedded lead tail)
      (((c :: rest).takeWhile isWordChar).length + 1)
      (String.ofList ((c :: rest).takeWhile isWordChar))).next.rest =
      (c :: rest).dropWhile isWordChar := by
    rw [ahead, Cursor.advance, same]
    exact Cursor.rest_skipWhile isWordChar ⟨0, c :: rest⟩
  rw [behind] at inside
  have shorter : ((c :: rest).dropWhile isWordChar).length < (c :: rest).length := by
    rw [List.dropWhile_cons_of_pos first, List.length_cons]
    exact Nat.lt_succ_of_le (List.dropWhile_suffix _).length_le
  obtain ⟨offset, text⟩ := cursor
  simp only [Cursor.embedded] at same
  rcases text with _ | ⟨point, _ | ⟨letter', text⟩⟩
  · -- the point and the word would start behind the piece
    rw [List.nil_append] at same
    rw [same, List.length_cons] at inside
    omega
  · simp only [List.cons_append, List.nil_append, List.cons.injEq] at same
    rw [same.2] at inside
    omega
  · simp only [List.cons_append, List.cons.injEq] at same
    obtain ⟨rfl, rfl, rfl⟩ := same
    rw [← List.cons_append] at inside ⊢
    have word := (takeWhile_clip inside).1
    have within := (List.takeWhile_sublist isWordChar (l := letter' :: text)).length_le
    refine ⟨_, segment?_eq_some_iff.mpr ⟨letter', text, rfl, letter, rfl⟩, ?_⟩
    rw [← ahead_embedded (Nat.succ_le_succ within), word]

/-! ## Numbers -/

theorem splitDigits_clip {text digits behind : List Char}
    (divided : splitDigits (text ++ tail) = (digits, behind))
    (inside : tail.length ≤ behind.length) :
    ∃ rest, splitDigits text = (digits, rest) ∧ behind = rest ++ tail := by
  rw [splitDigits, Prod.mk.injEq] at divided
  obtain ⟨rfl, rfl⟩ := divided
  obtain ⟨taken, left⟩ := takeWhile_clip inside
  exact ⟨_, by rw [splitDigits, taken], left⟩

/-- Without digits in a text there are none in a piece of it. -/
theorem splitDigits_nil_clip {text behind : List Char}
    (none : splitDigits (text ++ tail) = ([], behind)) : splitDigits text = ([], text) := by
  have whole : behind = text ++ tail := by
    have split := splitDigits_append (text ++ tail)
    rwa [none, List.nil_append] at split
  subst whole
  obtain ⟨rest, divided, same⟩ := splitDigits_clip none (by simp)
  rwa [← List.append_cancel_right same] at divided

theorem splitFraction_clip {text fraction behind : List Char}
    (divided : splitFraction (text ++ tail) = (fraction, behind))
    (inside : tail.length ≤ behind.length) :
    ∃ rest, splitFraction text = (fraction, rest) ∧ behind = rest ++ tail := by
  cases text with
  | nil =>
      rw [List.nil_append] at divided
      unfold splitFraction at divided
      split at divided
      · next rest =>
          have digits := length_splitDigits rest
          split at divided
          · cases divided
            exact ⟨[], rfl, rfl⟩
          · next own afterDigits _ found =>
              -- a fraction would end behind the piece
              cases divided
              rw [found] at digits
              simp only [List.length_cons] at digits inside
              omega
      · cases divided
        exact ⟨[], rfl, rfl⟩
  | cons c text =>
      by_cases point : c = '.'
      · subst point
        rw [List.cons_append, splitFraction] at divided
        rcases found : splitDigits (text ++ tail) with ⟨_ | ⟨digit, digits⟩, afterDigits⟩
        · rw [found] at divided
          cases divided
          refine ⟨'.' :: text, ?_, rfl⟩
          rw [splitFraction, splitDigits_nil_clip found]
        · rw [found] at divided
          cases divided
          obtain ⟨rest, own, rfl⟩ := splitDigits_clip found inside
          exact ⟨rest, by rw [splitFraction, own], rfl⟩
      · rw [List.cons_append, splitFraction_of_ne point] at divided
        cases divided
        exact ⟨c :: text, splitFraction_of_ne point text, rfl⟩

/-- An exponent whose mark stands at the end of a piece or behind it ends behind the piece. -/
theorem splitExponent_of_length {mark : Char} {text behind : List Char}
    {exponent : Option (Bool × List Char)}
    (divided : splitExponent (mark :: text) = (exponent, behind))
    (long : text.length ≤ behind.length) : exponent = none ∧ behind = mark :: text := by
  have unsigned := length_splitSign text
  have digits := length_splitDigits (splitSign text).2
  simp only [splitExponent] at divided
  split at divided
  · split at divided
    · cases divided
      exact ⟨rfl, rfl⟩
    · next own afterDigits some found =>
        cases divided
        have positive := List.length_pos_iff.mpr some
        rw [found] at digits
        dsimp only at digits
        omega
  · cases divided
    exact ⟨rfl, rfl⟩

theorem splitExponent_clip {text behind : List Char} {exponent : Option (Bool × List Char)}
    (divided : splitExponent (text ++ tail) = (exponent, behind))
    (inside : tail.length ≤ behind.length) :
    ∃ rest, splitExponent text = (exponent, rest) ∧ behind = rest ++ tail := by
  rcases text with _ | ⟨mark, _ | ⟨c, text⟩⟩
  · refine ⟨[], ?_⟩
    cases tail with
    | nil =>
        cases divided
        exact ⟨rfl, rfl⟩
    | cons mark rest =>
        obtain ⟨rfl, rfl⟩ := splitExponent_of_length divided (Nat.le_of_succ_le inside)
        exact ⟨rfl, rfl⟩
  · obtain ⟨rfl, rfl⟩ := splitExponent_of_length divided inside
    refine ⟨[mark], ?_, rfl⟩
    exact Prod.ext_iff.mpr (@splitExponent_of_length mark [] _ _ rfl (Nat.zero_le _))
  · rw [List.cons_append, splitExponent] at divided
    rw [splitExponent]
    by_cases marked : (decide (mark = 'e') || decide (mark = 'E')) = true
    · rw [if_pos marked] at divided ⊢
      simp only [splitSign_cons_append] at divided
      dsimp only
      rcases found : splitDigits ((splitSign (c :: text)).2 ++ tail) with
        ⟨_ | ⟨digit, digits⟩, afterDigits⟩
      · rw [found] at divided
        cases divided
        rw [splitDigits_nil_clip found]
        exact ⟨_, rfl, rfl⟩
      · rw [found] at divided
        cases divided
        obtain ⟨rest, own, rfl⟩ := splitDigits_clip found inside
        rw [own]
        exact ⟨rest, rfl, rfl⟩
    · rw [if_neg marked] at divided ⊢
      cases divided
      exact ⟨_, rfl, rfl⟩

theorem splitNumber_clip {text behind : List Char} {parts : NumberParts}
    (divided : splitNumber (text ++ tail) = some (parts, behind))
    (inside : tail.length ≤ behind.length) :
    ∃ rest, splitNumber text = some (parts, rest) ∧ behind = rest ++ tail := by
  cases text with
  | nil =>
      have shorter := length_splitNumber divided
      exact absurd inside (Nat.not_le.mpr shorter)
  | cons c text =>
      simp only [splitNumber, splitMinus_cons_append] at divided
      rcases first : splitDigits ((splitMinus (c :: text)).2 ++ tail) with
        ⟨_ | ⟨digit, digits⟩, afterWhole⟩
      · rw [first] at divided
        cases divided
      · rcases second : splitFraction afterWhole with ⟨fraction, afterFraction⟩
        rcases third : splitExponent afterFraction with ⟨exponent, last⟩
        rw [first] at divided
        simp only [second, third, Option.some.injEq, Prod.mk.injEq] at divided
        obtain ⟨rfl, rfl⟩ := divided
        have shorter := length_splitExponent afterFraction
        have shorter' := length_splitFraction afterWhole
        rw [third] at shorter
        rw [second] at shorter'
        dsimp only at shorter shorter'
        obtain ⟨rest, ownWhole, rfl⟩ := splitDigits_clip first (by omega)
        obtain ⟨rest', ownFraction, rfl⟩ := splitFraction_clip second (by omega)
        obtain ⟨rest'', ownExponent, rfl⟩ := splitExponent_clip third inside
        exact ⟨rest'', by simp only [splitNumber, ownWhole, ownFraction, ownExponent], rfl⟩

/-- A number is divided from its own text, too. -/
theorem splitNumber_own {text behind : List Char} {parts : NumberParts}
    (divided : splitNumber (text ++ behind) = some (parts, behind)) :
    splitNumber text = some (parts, []) := by
  obtain ⟨rest, own, same⟩ := splitNumber_clip divided (Nat.le_refl _)
  cases List.self_eq_append_left.mp same
  exact own

theorem splitNumber_none_clip {text : List Char} (something : text ≠ [])
    (none : splitNumber (text ++ tail) = none) : splitNumber text = .none := by
  cases text with
  | nil => exact absurd rfl something
  | cons c text =>
      simp only [splitNumber, splitMinus_cons_append] at none ⊢
      rcases first : splitDigits ((splitMinus (c :: text)).2 ++ tail) with
        ⟨_ | ⟨digit, digits⟩, afterWhole⟩
      · rw [splitDigits_nil_clip first]
      · rw [first] at none
        cases none

theorem number?_clip {lexeme : Lexeme Value}
    (found : number? (cursor.embedded lead tail) = some lexeme)
    (inside : tail.length ≤ lexeme.next.rest.length) :
    ∃ clipped, number? cursor = some clipped ∧ lexeme = clipped.embedded lead tail := by
  have skipped := (starts_of_number? found).skipBlanks_embedded inside
  simp only [number?, skipped, Cursor.rest_embedded] at found ⊢
  split at found
  · next parts behind divided =>
      cases found
      have shorter := length_splitNumber divided
      have left : tail.length ≤ behind.length := by
        simp only [ahead, Cursor.length_rest_advance, Cursor.rest_embedded] at inside
        omega
      obtain ⟨rest, own, rfl⟩ := splitNumber_clip divided left
      rw [own]
      refine ⟨_, rfl, ?_⟩
      rw [List.length_append, List.length_append, Nat.add_sub_add_right]
      exact ahead_embedded (Nat.sub_le _ _) _
  · cases found

theorem number?_none_clip (something : cursor.skipBlanks.rest ≠ [])
    (none : number? (cursor.embedded lead tail) = none) : number? cursor = .none := by
  simp only [number?, Cursor.skipBlanks_embedded_of_ne_nil something] at none ⊢
  split at none
  · cases none
  · next divided => rw [splitNumber_none_clip something divided]

/-! ## Strings -/

theorem codeUnit?_clip {text : List Char} (long : 4 ≤ text.length) :
    codeUnit? (text ++ tail) = codeUnit? text := by
  simp only [codeUnit?, List.take_append_of_le_length long]

/-- An escape that ends within a piece is decoded in the piece. -/
theorem unicodeEscape_clip {text : List Char} {c : Char} {length : Nat}
    (decoded : unicodeEscape (text ++ tail) = .decoded c length)
    (within : length ≤ text.length + 1) : unicodeEscape text = .decoded c length := by
  unfold unicodeEscape at decoded ⊢
  cases first : codeUnit? (text ++ tail) with
  | none =>
      rw [first] at decoded
      cases decoded
  | some unit =>
      rw [first] at decoded
      dsimp only at decoded
      by_cases leading : isLeading unit = true
      · rw [if_pos leading] at decoded
        split at decoded
        · next second rest =>
            cases low : codeUnit? second with
            | none =>
                rw [low] at decoded
                cases decoded
            | some trailing =>
                simp only [low] at decoded
                split at decoded
                · next paired =>
                    rw [Escape.decoded.injEq] at decoded
                    obtain ⟨rfl, rfl⟩ := decoded
                    have long : 4 ≤ text.length := by omega
                    rw [codeUnit?_clip long] at first
                    rw [List.drop_append_of_le_length long] at rest
                    have six := List.length_drop (i := 4) (l := text)
                    rcases behind : text.drop 4 with _ | ⟨a, _ | ⟨b, more⟩⟩
                    · rw [behind, List.length_nil] at six
                      omega
                    · rw [behind, List.length_singleton] at six
                      omega
                    · rw [behind, List.length_cons, List.length_cons] at six
                      rw [behind, List.cons_append, List.cons_append] at rest
                      cases rest
                      rw [codeUnit?_clip (by omega)] at low
                      simp only [first, leading, if_true, low, paired]
                · cases decoded
        · cases decoded
      · rw [if_neg leading] at decoded
        split at decoded
        · cases decoded
        · next single =>
            cases decoded
            rw [codeUnit?_clip (by omega)] at first
            simp only [first]
            rw [if_neg leading, if_neg single]

theorem unicodeEscape_pos {text : List Char} {c : Char} {length : Nat}
    (decoded : unicodeEscape text = .decoded c length) : 0 < length := by
  unfold unicodeEscape at decoded
  repeat' split at decoded
  all_goals first | exact (Escape.decoded.inj decoded).2 ▸ Nat.succ_pos _ | cases decoded

theorem escape_pos {text : List Char} {c : Char} {length : Nat}
    (decoded : escape text = .decoded c length) : 0 < length := by
  unfold escape at decoded
  split at decoded
  · cases decoded
  · split at decoded
    · cases decoded
      exact Nat.one_pos
    · split at decoded
      · exact unicodeEscape_pos decoded
      · cases decoded

theorem escape_clip {text : List Char} {c : Char} {length : Nat}
    (decoded : escape (text ++ tail) = .decoded c length) (within : length ≤ text.length) :
    escape text = .decoded c length := by
  cases text with
  | nil =>
      exact absurd (escape_pos decoded) (Nat.not_lt.mpr within)
  | cons first text =>
      simp only [List.cons_append, escape] at decoded ⊢
      cases simple : simpleEscape? first with
      | some other =>
          rw [simple] at decoded
          exact decoded
      | none =>
          rw [simple] at decoded
          dsimp only at decoded ⊢
          split
          · next unicode =>
              rw [if_pos unicode] at decoded
              exact unicodeEscape_clip decoded within
          · next other =>
              rw [if_neg other] at decoded
              cases decoded

/-- The closing quote stands behind the escape that is decoded already. -/
theorem skipped_le_of_closed {quote : Char} {rest text : List Char} {place skipped length : Nat}
    (closed : scan quote place skipped rest = .closed text length) : place + skipped ≤ length := by
  induction skipped generalizing place rest with
  | zero => exact (scan_closed closed).1
  | succ skipped ih =>
      cases rest with
      | nil => cases closed
      | cons c rest =>
          have later : place + 1 + skipped ≤ length := ih closed
          omega

/-- A string whose closing quote stands in a piece is closed in the piece. -/
theorem scan_clip {quote : Char} {rest text : List Char} {place skipped length : Nat}
    (closed : scan quote place skipped (rest ++ tail) = .closed text length)
    (within : length < place + rest.length) :
    scan quote place skipped rest = .closed text length := by
  induction rest generalizing place skipped text with
  | nil => exact absurd within (Nat.not_lt.mpr (scan_closed closed).1)
  | cons c rest ih =>
      rw [List.length_cons, ← Nat.add_assoc, Nat.add_right_comm] at within
      cases skipped with
      | succ skipped => exact ih closed within
      | zero =>
          simp only [List.cons_append, scan] at closed ⊢
          by_cases quoted : c = quote
          · rw [if_pos quoted] at closed ⊢
            exact closed
          · rw [if_neg quoted] at closed ⊢
            by_cases backslash : c = '\\'
            · rw [if_pos backslash] at closed ⊢
              split at closed
              · next decoded count found =>
                  obtain ⟨inner, rfl, later⟩ := cons_eq_closed.mp closed
                  have skips := skipped_le_of_closed later
                  rw [escape_clip found (by omega)]
                  exact cons_eq_closed.mpr ⟨inner, rfl, ih later within⟩
              · cases closed
              · cases closed
            · rw [if_neg backslash] at closed ⊢
              obtain ⟨inner, rfl, later⟩ := cons_eq_closed.mp closed
              exact cons_eq_closed.mpr ⟨inner, rfl, ih later within⟩

theorem string?_clip {lexeme : Lexeme String}
    (found : string? (cursor.embedded lead tail) = .ok (some lexeme))
    (inside : tail.length ≤ lexeme.next.rest.length) :
    ∃ clipped, string? cursor = .ok (some clipped) ∧ lexeme = clipped.embedded lead tail := by
  have starts := starts_of_string? found
  have skipped := starts.skipBlanks_embedded inside
  have shorter := starts.2.length_lt
  simp only [string?, skipped, Cursor.rest_embedded] at found shorter ⊢
  cases text : cursor.skipBlanks.rest with
  | nil =>
      rw [text, List.nil_append] at shorter
      exact absurd inside (Nat.not_le.mpr shorter)
  | cons quote rest =>
      rw [text, List.cons_append] at found
      dsimp only at found ⊢
      by_cases quoted : (decide (quote = '"') || decide (quote = '\'')) = true
      · rw [if_pos quoted] at found ⊢
        split at found
        · next content place closed =>
            cases found
            have within : place + 1 ≤ cursor.skipBlanks.rest.length := by
              have bounds := scan_closed closed
              simp only [ahead, Cursor.length_rest_advance, Cursor.rest_embedded,
                List.length_append, text, List.length_cons] at inside bounds ⊢
              omega
            rw [scan_clip closed (by rw [text, List.length_cons] at within; omega)]
            exact ⟨_, rfl, ahead_embedded within _⟩
        · cases found
      · rw [if_neg quoted] at found
        cases found

theorem string?_none_clip (something : cursor.skipBlanks.rest ≠ [])
    (none : string? (cursor.embedded lead tail) = .ok none) : string? cursor = .ok .none := by
  obtain ⟨quote, rest, text⟩ := List.exists_cons_of_ne_nil something
  simp only [string?, Cursor.skipBlanks_embedded_of_ne_nil something, Cursor.rest_embedded, text,
    List.cons_append] at none ⊢
  split
  · next quoted =>
      rw [if_pos quoted] at none
      split at none <;> cases none
  · rfl

end Lexeme

end Mixfix
