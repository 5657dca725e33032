import Mixfix.Proofs.Text.Inlining

/-!
# Reading a text with digits in place of an identifier

A cursor goes through a text, and another one through the text with digits in place of an identifier.
As long as both stand at the same place (`InPlace`), they find the same marks (`InPlace.token?_iff`),
the same literals (`InPlace.constant?`) and the same references (`InPlace.reference?`), and behind
these they stand at the same place again. Only where the first one finds the identifier does the
second one find a literal (`InPlace.literal`).
-/

set_option autoImplicit false

namespace Mixfix.Parse

open Lexeme
open Unicode (isAsciiDigit)

variable {name : String} {other behind : List Char}

/-! ## Readers in both texts -/

/-- A cursor that stands in the text with other text in place of an identifier, at the same place. -/
def InPlace (name : String) (other : List Char) (cursor cursor' : Cursor) : Prop :=
  cursor'.rest = inlined name other cursor.rest

namespace InPlace

variable {cursor cursor' : Cursor} {tokens : List String} {token : String}

/-- Behind what is written before the same text both cursors stand at the same place. -/
theorem advance {next : Cursor} {text : List Char}
    (written : cursor'.rest = text ++ inlined name other next.rest) :
    InPlace name other next (cursor'.advance text.length) := by
  rw [InPlace, Cursor.advance, written, List.drop_left]

section Digits

variable (digits : other.head?.any isAsciiDigit = true)
include digits

theorem skipBlanks (place : InPlace name other cursor cursor') :
    InPlace name other cursor.skipBlanks cursor'.skipBlanks := by
  rw [InPlace] at place
  rw [InPlace, Cursor.skipBlanks, Cursor.skipBlanks, Cursor.rest_skipWhile, Cursor.rest_skipWhile,
    place, dropWhile_inlined digits]

/-- What becomes of the text ahead is ahead in the other text. -/
theorem written (place : InPlace name other cursor cursor') {text text' : List Char}
    (ahead : cursor.skipBlanks.rest = text ++ behind)
    (becomes : inlined name other (text ++ behind) = text' ++ inlined name other behind) :
    cursor'.skipBlanks.rest = text' ++ inlined name other behind := by
  rw [← becomes, ← ahead]
  exact place.skipBlanks digits

/-- The same marks stand at the same place. -/
theorem standsAt (place : InPlace name other cursor cursor') (mark : IsMark token)
    (lone : ∀ c ∈ token.toList, isLone c = true) :
    Lexeme.standsAt token.toList cursor' = Lexeme.standsAt token.toList cursor := by
  rw [InPlace] at place
  rw [Bool.eq_iff_iff, mark.standsAt_iff, mark.standsAt_iff, place,
    prefix_inlined_iff digits lone]

theorem token?_iff (place : InPlace name other cursor cursor')
    (marks : ∀ token ∈ tokens, IsMark token ∧ ∀ c ∈ token.toList, isLone c = true)
    (registered : token ∈ tokens) :
    (token? tokens token cursor').isSome = (token? tokens token cursor).isSome ∧
      ∀ lexeme lexeme', token? tokens token cursor = some lexeme →
        token? tokens token cursor' = some lexeme' →
        InPlace name other lexeme.next lexeme'.next := by
  have here := place.skipBlanks digits
  obtain ⟨mark, lone⟩ := marks token registered
  have stands := here.standsAt digits mark lone
  have shadowed : isShadowed tokens token.toList cursor'.skipBlanks =
      isShadowed tokens token.toList cursor.skipBlanks := by
    rw [Bool.eq_iff_iff, isShadowed, isShadowed, List.any_eq_true, List.any_eq_true]
    refine exists_congr fun longer => and_congr_right fun known => ?_
    dsimp only
    rw [here.standsAt digits (marks longer known).1 (marks longer known).2]
  refine ⟨?_, fun lexeme lexeme' found found' => ?_⟩
  · simp only [token?, stands, shadowed]
    split <;> rfl
  · obtain ⟨standsHere, _, rfl⟩ := token?_eq_some_iff.mp found
    obtain ⟨_, _, rfl⟩ := token?_eq_some_iff.mp found'
    obtain ⟨behind, ahead⟩ := prefix_of_standsAt standsHere
    have ahead' := place.written digits ahead.symm (inlined_append lone behind)
    refine advance ?_
    simpa only [Lexeme.ahead, Cursor.advance, ← ahead, List.drop_left] using ahead'

/-- The same literal stands at the same place, if its end is clear. -/
theorem constant? (place : InPlace name other cursor cursor') {lexeme : Lexeme Value}
    (found : Parse.constant? cursor = .ok (some lexeme)) (ends : endsPath lexeme.next.rest = true) :
    ∃ lexeme', Parse.constant? cursor' = .ok (some lexeme') ∧ lexeme'.content = lexeme.content ∧
      InPlace name other lexeme.next lexeme'.next := by
  obtain ⟨text, literal, ahead⟩ := exists_isLiteral found
  have ahead' := place.written digits ahead (inlined_literal literal ends)
  exact ⟨_, constant?_of_isLiteral literal (endsPath_inlined digits ends) ahead', rfl,
    advance ahead'⟩

end Digits

end InPlace

/-! ## References in both texts -/

section References

variable {schema : Schema} {cursor cursor' next : Cursor} {tree : Tree} {entry : Entry}

theorem keywordValue?_of_noConstant (noConstant : constant? cursor = .ok none) :
    keywordValue? cursor = none := by
  unfold constant? at noConstant
  split at noConstant
  · cases noConstant
  · split at noConstant
    · cases noConstant
    · cases noConstant
    · exact Except.ok.inj noConstant

/-- Behind a minus that is no literal there is no digit. -/
theorem notDigit_of_noConstant (noConstant : constant? cursor = .ok none) {rest : List Char}
    (written : cursor.skipBlanks.rest = '-' :: rest) :
    rest.head?.all (fun c => !isAsciiDigit c) = true := by
  cases rest with
  | nil => rfl
  | cons d rest =>
      rw [List.head?_cons, Option.all_some, Bool.not_eq_true']
      cases digit : isAsciiDigit d with
      | false => rfl
      | true =>
          simp [constant?, number?, written, splitNumber, splitMinus, splitDigits, digit]
            at noConstant

/-- A reference where no literal stands is written as its path, and starts with no keyword. -/
theorem exists_path (found : reference? schema cursor = .ok (some (tree, next)))
    (noConstant : constant? cursor = .ok none) (ends : endsPath next.rest = true) :
    ∃ first segments entry, schema.resolve (first :: segments) = some entry ∧
      (∀ segment ∈ first :: segments, isWord segment = true) ∧
      tree = .identifier (first :: segments) entry.descriptor
        (Extent.bare cursor.skipBlanks.offset next.offset) ∧
      cursor.skipBlanks.rest = pathText (first :: segments) ++ next.rest ∧
      ∀ keyword : Keyword, first ≠ keyword.text := by
  obtain ⟨path, entry, resolved, words, nonempty, same, ⟨behind, written⟩, moved⟩ :=
    reference?_ok found
  obtain ⟨first, segments, rfl⟩ := List.exists_cons_of_ne_nil nonempty
  have rest : next.rest = behind := by
    rw [moved, Cursor.advance, ← written, List.drop_left]
  refine ⟨first, segments, entry, resolved, words, same, by rw [rest, written], ?_⟩
  rintro keyword rfl
  have word : cursor.skipBlanks.rest.takeWhile isWordChar = keyword.text.toList := by
    rw [rest] at ends
    rw [← written, pathText, List.append_assoc]
    exact takeWhile_append_of_all (isWordChar_keyword keyword) (endsPath_dotted segments ends)
  have none := keywordValue?_of_noConstant noConstant
  rw [keywordValue?_of_takeWhile word] at none
  cases none

/-- An identifier of the schema is read as a reference, and as no literal. -/
theorem StartsWith.reference? (starts : StartsWith name cursor.skipBlanks.rest)
    (resolved : schema.resolve [name] = some entry) :
    ∃ next, Parse.reference? schema cursor = .ok (some
        (.identifier [name] entry.descriptor
          (Extent.bare cursor.skipBlanks.offset next.offset), next)) ∧
      Parse.constant? cursor = .ok none ∧ endsPath next.rest = true ∧
      cursor.skipBlanks.rest = name.toList ++ next.rest := by
  obtain ⟨identifier, behind, written, ends⟩ := starts
  obtain ⟨word, keywords⟩ := isIdentifier_iff.mp identifier
  have words : ∀ segment ∈ [name], isWord segment = true := by simpa using word
  have text : pathText [name] = name.toList := by
    rw [pathText, dotted, List.flatMap_nil, List.append_nil]
  have path : cursor.skipBlanks.rest = pathText [name] ++ behind := by rw [text, written]
  refine ⟨_, reference?_dotted path words resolved ends, constant?_word path word ends keywords, ?_⟩
  have rest : (cursor.skipBlanks.advance (pathText [name]).length).rest = behind := by
    rw [Cursor.advance, path, List.drop_left]
  rw [rest]
  exact ⟨ends, written⟩

variable (digits : other.head?.any isAsciiDigit = true)
include digits

/-- Where a reference is read, the same one is read in the other text, or a literal in place of it. -/
theorem InPlace.reference? (place : InPlace name other cursor cursor')
    (found : Parse.reference? schema cursor = .ok (some (tree, next)))
    (noConstant : Parse.constant? cursor = .ok none) (ends : endsPath next.rest = true) :
    (∃ path type extent extent' next', path ≠ [name] ∧ tree = .identifier path type extent ∧
        Parse.reference? schema cursor' = .ok (some (.identifier path type extent', next')) ∧
        Parse.constant? cursor' = .ok none ∧ InPlace name other next next') ∨
      StartsWith name cursor.skipBlanks.rest := by
  obtain ⟨first, segments, entry, resolved, words, rfl, ahead, keywords⟩ :=
    exists_path found noConstant ends
  by_cases same : first :: segments = [name]
  · right
    cases same
    refine ⟨isIdentifier_iff.mpr ⟨words name List.mem_cons_self, keywords⟩, next.rest, ?_, ends⟩
    rw [ahead, pathText, dotted, List.flatMap_nil, List.append_nil]
  · left
    have ahead' := place.written digits ahead
      (inlined_path words (List.cons_ne_nil _ _) same ends)
    have endsHere := @endsPath_inlined name _ _ digits ends
    exact ⟨_, _, _, _, _, same, rfl, reference?_dotted ahead' words resolved endsHere,
      constant?_word ahead' (words first List.mem_cons_self) endsHere keywords, .advance ahead'⟩

/-- In place of an identifier a literal is read. -/
theorem InPlace.literal (place : InPlace name other cursor cursor')
    (starts : StartsWith name cursor.skipBlanks.rest) {value : Value}
    (literal : IsLiteral other value) (ends : endsPath next.rest = true)
    (ahead : cursor.skipBlanks.rest = name.toList ++ next.rest) :
    ∃ lexeme', Parse.constant? cursor' = .ok (some lexeme') ∧ lexeme'.content = value ∧
      InPlace name other next lexeme'.next := by
  have ahead' := place.written digits ahead (inlined_name starts.1 ends)
  exact ⟨_, constant?_of_isLiteral literal (endsPath_inlined digits ends) ahead', rfl,
    .advance ahead'⟩

end References

end Mixfix.Parse
