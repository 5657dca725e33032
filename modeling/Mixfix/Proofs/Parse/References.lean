import Mixfix.Parse.Operand
import Mixfix.Proofs.Descriptor.Reading
import Mixfix.Proofs.Text.Tokens

/-!
# References and dotted paths

A reference stands for a field of the schema and is written as the dotted path of the field. Reading
a reference finds a path that the schema resolves and takes exactly its dotted text
(`reference?_ok`). A path of words that the schema resolves is read back from its dotted text, if
the text does not go on as a word or with a point (`reference?_dotted`). A reference fails at its
first word or behind the point of a later one (`reference?_error`). With another schema the same
reference is read if the fields of both are related along every path (`reference?_of_carries`).
-/

set_option autoImplicit false

namespace Mixfix.Parse

open Lexeme

/-! ## Dotted texts -/

/-- Segments of a path behind its first one, each with the point before it. -/
def dotted (segments : List String) : List Char :=
  segments.flatMap fun segment => '.' :: segment.toList

/-- The text of a path. -/
def pathText : List String → List Char
  | [] => []
  | name :: segments => name.toList ++ dotted segments

/-- The text of a path is its segments joined by points. -/
theorem pathText_eq_intercalate (path : List String) :
    pathText path = (".".intercalate path).toList := by
  rw [String.toList_intercalate]
  cases path with
  | nil => rfl
  | cons name segments =>
      induction segments generalizing name with
      | nil => simp [pathText, dotted]
      | cons segment segments ih =>
          have rest := ih segment
          simp only [pathText, dotted, List.flatMap_cons] at rest ⊢
          rw [List.map_cons, List.map_cons, List.intercalate_cons_cons, ← List.map_cons, ← rest]
          simp

/-- Whether a text is a word: a letter and word characters behind it. -/
def isWord (segment : String) : Bool :=
  match segment.toList with
  | [] => false
  | c :: rest => Unicode.isAlphabetic c && rest.all isWordChar

theorem isWord_iff {segment : String} :
    isWord segment = true ↔
      ∃ c rest, segment.toList = c :: rest ∧ Unicode.isAlphabetic c = true ∧
        ∀ other ∈ rest, isWordChar other = true := by
  unfold isWord
  cases segment.toList with
  | nil => simp
  | cons c rest =>
      rw [Bool.and_eq_true, List.all_eq_true]
      constructor
      · exact fun ⟨letter, chars⟩ => ⟨c, rest, rfl, letter, chars⟩
      · rintro ⟨_, _, same, letter, chars⟩
        cases same
        exact ⟨letter, chars⟩

/-- Whether a text cannot go on a path: it does not start with a word character or a point. -/
def endsPath (behind : List Char) : Bool :=
  behind.head?.all fun c => !isWordChar c && c != '.'

/-- Characters of a class are taken up to the first that is not of it. -/
theorem takeWhile_append_of_all {test : Char → Bool} {word behind : List Char}
    (inside : ∀ c ∈ word, test c = true) (outside : behind.head?.all (fun c => !test c) = true) :
    (word ++ behind).takeWhile test = word := by
  rw [List.takeWhile_append_of_pos inside]
  cases behind with
  | nil => simp
  | cons c behind =>
      have stops : test c = false := by simpa using outside
      simp [stops]

theorem wordChars_of_isWord {segment : String} (word : isWord segment = true) :
    ∀ c ∈ segment.toList, isWordChar c = true := by
  obtain ⟨c, rest, same, letter, chars⟩ := isWord_iff.mp word
  rw [same]
  intro other mem
  rcases List.mem_cons.mp mem with rfl | later
  · exact isWordChar_of_isAlphabetic letter
  · exact chars other later

theorem isWord_takeWhile {c : Char} {rest : List Char} (letter : Unicode.isAlphabetic c = true) :
    isWord (String.ofList ((c :: rest).takeWhile isWordChar)) = true := by
  rw [isWord_iff]
  refine ⟨c, rest.takeWhile isWordChar, ?_, letter, fun other mem => ?_⟩
  · rw [String.toList_ofList, List.takeWhile_cons, if_pos (isWordChar_of_isAlphabetic letter)]
  · exact List.all_eq_true.mp List.all_takeWhile other mem

/-! ## Reading words -/

/-- A word stands ahead if it is all that is there of word characters. -/
theorem standsAt_word_iff {text : List Char} (word : ∀ c ∈ text, isWordChar c = true)
    (nonempty : text ≠ []) {cursor : Cursor} :
    standsAt text cursor = true ↔ cursor.rest.takeWhile isWordChar = text := by
  have ends : text.getLast?.any isWordChar = true := by
    rw [List.getLast?_eq_some_getLast nonempty]
    exact word _ (List.getLast_mem nonempty)
  rw [standsAt, Bool.and_eq_true, List.isPrefixOf_iff_prefix, endsAt, ends, Bool.true_and,
    Bool.not_eq_true']
  constructor
  · rintro ⟨⟨behind, same⟩, apart⟩
    rw [← same] at apart ⊢
    rw [List.drop_left] at apart
    refine takeWhile_append_of_all word ?_
    cases behind with
    | nil => rfl
    | cons c behind => simpa using apart
  · intro taken
    have split : text ++ cursor.rest.dropWhile isWordChar = cursor.rest := by
      rw [← taken]
      exact List.takeWhile_append_dropWhile
    refine ⟨⟨_, split⟩, ?_⟩
    have stops := List.head?_dropWhile_not isWordChar cursor.rest
    rw [← split, List.drop_left]
    cases behind : cursor.rest.dropWhile isWordChar with
    | nil => rfl
    | cons c behind =>
        rw [behind] at stops
        simpa using stops

theorem isWordChar_keyword (keyword : Keyword) : ∀ c ∈ keyword.text.toList, isWordChar c = true := by
  cases keyword <;> exact List.all_eq_true.mp (by decide)

theorem standsAt_keyword_iff {keyword : Keyword} {cursor : Cursor} :
    standsAt keyword.text.toList cursor = true ↔
      cursor.rest.takeWhile isWordChar = keyword.text.toList :=
  standsAt_word_iff (isWordChar_keyword keyword) (by cases keyword <;> decide)

theorem identifier?_some {cursor : Cursor} {lexeme : Lexeme String}
    (found : identifier? cursor = some lexeme) :
    isWord lexeme.content = true ∧ lexeme.content.toList <+: cursor.skipBlanks.rest ∧
      lexeme.span = ⟨cursor.skipBlanks.offset, lexeme.next.offset⟩ ∧
      lexeme.next = cursor.skipBlanks.advance lexeme.content.toList.length := by
  simp only [identifier?] at found
  split at found
  · cases found
  · next c rest same =>
      split at found
      · next letter =>
          cases found
          simp only [Lexeme.ahead, same, String.toList_ofList]
          exact ⟨isWord_takeWhile letter, List.takeWhile_prefix _, trivial, trivial⟩
      · cases found

theorem segment?_some {cursor : Cursor} {lexeme : Lexeme String}
    (found : segment? cursor = some lexeme) :
    isWord lexeme.content = true ∧ '.' :: lexeme.content.toList <+: cursor.rest ∧
      lexeme.next = cursor.advance (lexeme.content.toList.length + 1) := by
  simp only [segment?] at found
  split at found
  · next c rest same =>
      split at found
      · next letter =>
          cases found
          simp only [Lexeme.ahead, same, String.toList_ofList]
          refine ⟨isWord_takeWhile letter, ?_, trivial⟩
          exact List.cons_prefix_cons.mpr ⟨rfl, List.takeWhile_prefix _⟩
      · cases found
  · cases found

/-- A word that the text does not go on is read as an identifier. -/
theorem identifier?_word {cursor : Cursor} {name : String} {behind : List Char}
    (word : isWord name = true) (ahead : cursor.skipBlanks.rest = name.toList ++ behind)
    (ends : behind.head?.all (fun c => !isWordChar c) = true) :
    identifier? cursor =
      some (Lexeme.ahead cursor.skipBlanks name.toList.length name) := by
  have taken := takeWhile_append_of_all (wordChars_of_isWord word) ends
  obtain ⟨c, rest, same, letter, _⟩ := isWord_iff.mp word
  simp only [identifier?, ahead, taken]
  rw [same]
  simp only [List.cons_append, letter, if_true]
  rw [← same, String.ofList_toList]

/-- A word behind a point that the text does not go on is read as a segment. -/
theorem segment?_word {cursor : Cursor} {name : String} {behind : List Char}
    (word : isWord name = true) (ahead : cursor.rest = '.' :: name.toList ++ behind)
    (ends : behind.head?.all (fun c => !isWordChar c) = true) :
    segment? cursor = some (Lexeme.ahead cursor (name.toList.length + 1) name) := by
  have taken := takeWhile_append_of_all (wordChars_of_isWord word) ends
  obtain ⟨c, rest, same, letter, _⟩ := isWord_iff.mp word
  simp only [segment?, ahead]
  rw [same, List.cons_append] at taken
  rw [same]
  simp only [List.cons_append, letter, if_true, taken]
  rw [← same, String.ofList_toList]

/-- Where a path cannot go on there is no segment. -/
theorem segment?_eq_none {cursor : Cursor} (ends : endsPath cursor.rest = true) :
    segment? cursor = none := by
  unfold segment?
  split
  · next c rest same =>
      rw [same] at ends
      simp [endsPath] at ends
  · rfl

/-! ## Reading paths -/

@[simp]
theorem reference?_skipBlanks (schema : Schema) (cursor : Cursor) :
    reference? schema cursor.skipBlanks = reference? schema cursor := by
  simp only [reference?, identifier?_skipBlanks]

/-- Following segments finds the field of a longer path and takes the dotted text of what it adds
to the path. -/
theorem followSegments_ok {steps : Nat} {reached final : Reached}
    (ok : followSegments steps reached = .ok final) :
    ∃ more, final.path = reached.path ++ more ∧
      reached.entry.follow more = some final.entry ∧
      (∀ segment ∈ more, isWord segment = true) ∧
      dotted more <+: reached.cursor.rest ∧
      final.cursor = reached.cursor.advance (dotted more).length := by
  have stays : ∃ more, reached.path = reached.path ++ more ∧
      reached.entry.follow more = some reached.entry ∧
      (∀ segment ∈ more, isWord segment = true) ∧
      dotted more <+: reached.cursor.rest ∧
      reached.cursor = reached.cursor.advance (dotted more).length :=
    ⟨[], by simp, rfl, by simp, List.nil_prefix, (Cursor.advance_zero _).symm⟩
  induction steps generalizing reached with
  | zero =>
      cases ok
      exact stays
  | succ steps ih =>
      obtain ⟨path, entry, cursor⟩ := reached
      simp only [followSegments] at ok
      cases entry with
      | type _ =>
          cases ok
          exact stays
      | nested fields =>
          dsimp only at ok
          split at ok
          · cases ok
            exact stays
          · next segment found =>
              split at ok
              · cases ok
              · next entry there =>
                  obtain ⟨word, ⟨behind, ahead⟩, next⟩ := segment?_some found
                  obtain ⟨more, same, followed, words, ⟨rest, begins⟩, stops⟩ := ih ok
                    ⟨[], by simp, rfl, by simp, List.nil_prefix, (Cursor.advance_zero _).symm⟩
                  refine ⟨segment.content :: more, by simp [same], ?_, ?_, ?_, ?_⟩
                  · simp only [Entry.follow, there]
                    exact followed
                  · intro other mem
                    rcases List.mem_cons.mp mem with rfl | later
                    · exact word
                    · exact words other later
                  · refine ⟨rest, ?_⟩
                    have behindIs : behind = dotted more ++ rest := by
                      have dropped := congrArg Cursor.rest next
                      rw [← begins] at dropped
                      simpa [Cursor.advance, ← ahead] using dropped.symm
                    simp only [dotted, List.flatMap_cons] at behindIs ⊢
                    rw [← ahead, behindIs]
                    simp
                  · rw [stops, next, Cursor.advance_advance]
                    congr 1
                    simp only [dotted, List.flatMap_cons, List.length_append, List.length_cons]

/-- A reference stands for a field that the schema resolves, and takes the dotted text of its
path. -/
theorem reference?_ok {schema : Schema} {cursor : Cursor} {tree : Tree} {next : Cursor}
    (ok : reference? schema cursor = .ok (some (tree, next))) :
    ∃ path entry, schema.resolve path = some entry ∧
      (∀ segment ∈ path, isWord segment = true) ∧ path ≠ [] ∧
      tree = .identifier path entry.descriptor
        (Extent.bare cursor.skipBlanks.offset next.offset) ∧
      pathText path <+: cursor.skipBlanks.rest ∧
      next = cursor.skipBlanks.advance (pathText path).length := by
  simp only [reference?] at ok
  split at ok
  · cases ok
  · next name found =>
      split at ok
      · cases ok
      · next entry there =>
          obtain ⟨word, ⟨behind, ahead⟩, span, after⟩ := identifier?_some found
          cases walked : followSegments name.next.rest.length
              ⟨[name.content], entry, name.next⟩ with
          | error failure =>
              rw [walked] at ok
              cases ok
          | ok reached =>
              rw [walked] at ok
              cases ok
              obtain ⟨more, path, followed, words, ⟨rest, begins⟩, stops⟩ :=
                followSegments_ok walked
              refine ⟨name.content :: more, reached.entry, ?_, ?_, by simp, ?_, ?_, ?_⟩
              · simp only [Schema.resolve, there, Option.bind_some]
                exact followed
              · intro other mem
                rcases List.mem_cons.mp mem with rfl | later
                · exact word
                · exact words other later
              · rw [path, span]
                rfl
              · refine ⟨rest, ?_⟩
                have behindIs : behind = dotted more ++ rest := by
                  have dropped := congrArg Cursor.rest after
                  rw [← begins] at dropped
                  simpa [Cursor.advance, ← ahead] using dropped.symm
                rw [← ahead, behindIs, pathText, List.append_assoc]
              · rw [stops, after, Cursor.advance_advance, pathText, List.length_append]

/-- A reference takes characters ahead. -/
theorem passes_of_reference? {schema : Schema} {cursor : Cursor} {tree : Tree} {next : Cursor}
    (ok : reference? schema cursor = .ok (some (tree, next))) : cursor.skipBlanks.Passes next := by
  obtain ⟨path, entry, _, words, nonempty, rfl, ⟨behind, ahead⟩, rfl⟩ := reference?_ok ok
  refine ⟨_, ?_, ?_, rfl⟩
  · obtain ⟨name, rest, rfl⟩ := List.exists_cons_of_ne_nil nonempty
    obtain ⟨c, chars, same, -⟩ := isWord_iff.mp (words name List.mem_cons_self)
    simp [pathText, same]
  · rw [← ahead, List.length_append]
    omega

theorem endsPath_dotted (segments : List String) {behind : List Char}
    (ends : endsPath behind = true) :
    (dotted segments ++ behind).head?.all (fun c => !isWordChar c) = true := by
  cases segments with
  | nil =>
      cases behind with
      | nil => rfl
      | cons c behind =>
          simp only [endsPath, List.head?_cons, Option.all_some, Bool.and_eq_true] at ends
          simpa [dotted] using ends.1
  | cons segment segments =>
      have point : isWordChar '.' = false := by decide
      simp [dotted, point]

/-- Segments that the fields have are followed through their dotted text, to its end. -/
theorem followSegments_dotted {segments : List String} {steps : Nat} {path : List String}
    {entry final : Entry} {cursor : Cursor} {behind : List Char}
    (ahead : cursor.rest = dotted segments ++ behind)
    (words : ∀ segment ∈ segments, isWord segment = true)
    (followed : entry.follow segments = some final) (ends : endsPath behind = true)
    (enough : segments.length ≤ steps) :
    followSegments steps ⟨path, entry, cursor⟩ =
      .ok ⟨path ++ segments, final, cursor.advance (dotted segments).length⟩ := by
  induction segments generalizing steps path entry cursor with
  | nil =>
      obtain rfl := Option.some.inj followed
      have none : segment? cursor = none := segment?_eq_none (by simpa [ahead, dotted] using ends)
      have here : followSegments steps ⟨path, entry, cursor⟩ = .ok ⟨path, entry, cursor⟩ := by
        cases steps with
        | zero => rfl
        | succ steps => cases entry <;> simp only [followSegments, none]
      rw [here]
      simp [dotted]
  | cons segment segments ih =>
      cases steps with
      | zero => simp at enough
      | succ steps =>
          cases entry with
          | type _ => cases followed
          | nested fields =>
              simp only [Entry.follow] at followed
              split at followed
              · next inner there =>
                  have start : cursor.rest =
                      '.' :: segment.toList ++ (dotted segments ++ behind) := by
                    rw [ahead, dotted, List.flatMap_cons, List.append_assoc]
                    rfl
                  have found := segment?_word (words segment List.mem_cons_self) start
                    (endsPath_dotted segments ends)
                  simp only [followSegments, found, Lexeme.ahead, there]
                  rw [ih _ (fun other mem => words other (List.mem_cons_of_mem _ mem)) followed
                    (Nat.le_of_succ_le_succ enough)]
                  · simp only [List.append_assoc, List.singleton_append, Cursor.advance_advance,
                      dotted, List.flatMap_cons, List.length_append, List.length_cons]
                  · simp [Cursor.advance, start]
              · cases followed

theorem length_le_length_dotted (segments : List String) :
    segments.length ≤ (dotted segments).length := by
  induction segments with
  | nil => exact Nat.le_refl _
  | cons segment segments ih =>
      simp only [dotted, List.flatMap_cons, List.length_append, List.length_cons] at ih ⊢
      omega

/-- A path of words that the schema resolves is read from its dotted text. -/
theorem reference?_dotted {schema : Schema} {name : String} {segments : List String}
    {entry : Entry} {cursor : Cursor} {behind : List Char}
    (ahead : cursor.skipBlanks.rest = pathText (name :: segments) ++ behind)
    (words : ∀ segment ∈ name :: segments, isWord segment = true)
    (resolved : schema.resolve (name :: segments) = some entry)
    (ends : endsPath behind = true) :
    reference? schema cursor = .ok (some
      (.identifier (name :: segments) entry.descriptor
        (Extent.bare cursor.skipBlanks.offset
          (cursor.skipBlanks.advance (pathText (name :: segments)).length).offset),
        cursor.skipBlanks.advance (pathText (name :: segments)).length)) := by
  have start : cursor.skipBlanks.rest = name.toList ++ (dotted segments ++ behind) := by
    rw [ahead, pathText, List.append_assoc]
  have found := identifier?_word (words name List.mem_cons_self) start
    (endsPath_dotted segments ends)
  simp only [Schema.resolve] at resolved
  obtain ⟨first, there, followed⟩ := Option.bind_eq_some_iff.mp resolved
  have rest : (cursor.skipBlanks.advance name.toList.length).rest = dotted segments ++ behind := by
    simp [Cursor.advance, start]
  have enough : segments.length ≤ (cursor.skipBlanks.advance name.toList.length).rest.length := by
    have := length_le_length_dotted segments
    rw [rest, List.length_append]
    omega
  simp only [reference?, found, Lexeme.ahead, there]
  rw [followSegments_dotted rest (fun other mem => words other (List.mem_cons_of_mem _ mem))
    followed ends enough]
  simp only [Cursor.advance_advance, pathText, List.length_append, List.singleton_append]
  rfl

/-! ## Failing references -/

/-- Following segments fails at a segment that the fields reached before it do not have. -/
theorem followSegments_error {steps : Nat} {reached : Reached} {failure : Failure}
    (failed : followSegments steps reached = .error failure) :
    ∃ cursor segment path, reached.cursor.Reaches cursor ∧ segment? cursor = some segment ∧
      failure = ⟨segment.span.start + 1, .unknownField segment.content path⟩ := by
  induction steps generalizing reached with
  | zero => cases failed
  | succ steps ih =>
      rw [followSegments] at failed
      split at failed
      · cases failed
      · split at failed
        · cases failed
        · next segment found =>
            split at failed
            · cases failed
              exact ⟨reached.cursor, segment, reached.path, .refl _, found, rfl⟩
            · obtain ⟨cursor, later, path, reaches, ahead, same⟩ := ih failed
              have passes := (starts_of_segment? found).2
              exact ⟨cursor, later, path, passes.reaches.trans reaches, ahead, same⟩

/-- A reference fails at its identifier, which the schema does not have, or at a segment behind
it. -/
theorem reference?_error {schema : Schema} {cursor : Cursor} {failure : Failure}
    (failed : reference? schema cursor = .error failure) :
    ∃ name, identifier? cursor = some name ∧
      (failure = ⟨name.span.start, .unknownIdentifier name.content⟩ ∨
        ∃ stop segment path, name.next.Reaches stop ∧ segment? stop = some segment ∧
          failure = ⟨segment.span.start + 1, .unknownField segment.content path⟩) := by
  unfold reference? at failed
  split at failed
  · cases failed
  · next name found =>
      refine ⟨name, found, ?_⟩
      split at failed
      · cases failed
        exact .inl rfl
      · next entry _ =>
          rcases followed : followSegments name.next.rest.length
              ⟨[name.content], entry, name.next⟩ with other | reached
          · rw [followed] at failed
            cases failed
            exact .inr (followSegments_error followed)
          · rw [followed] at failed
            cases failed

/-- Only strings and references fail as literals. -/
theorem capture?_error {schema : Schema} {kind : LiteralKind} {cursor : Cursor} {failure : Failure}
    (failed : capture? schema kind cursor = .error failure) :
    stringValue? cursor = .error failure ∨ reference? schema cursor = .error failure := by
  cases kind with
  | number => cases failed
  | keyword keyword => cases failed
  | string =>
      rw [capture?] at failed
      rcases string : stringValue? cursor with other | lexeme
      · rw [string] at failed
        cases failed
        exact .inl rfl
      · rw [string] at failed
        cases failed
  | identifier =>
      rw [capture?] at failed
      rcases reference : reference? schema cursor with other | parsed
      · rw [reference] at failed
        cases failed
        exact .inr rfl
      · rw [reference] at failed
        cases failed

/-! ## Another schema -/

/-- A relation of fields that goes on along a path: a field without fields of its own is related to
such a field, and nested fields to nested fields that have a related one under each of the names. -/
structure Carries (related : Entry → Entry → Prop) : Prop where
  type : ∀ {descriptor entry}, related (.type descriptor) entry →
    ∃ descriptor', entry = .type descriptor'
  nested : ∀ {fields entry}, related (.nested fields) entry →
    ∃ others, entry = .nested others ∧ ∀ {name inner}, Dict.get? fields name = some inner →
      ∃ inner', Dict.get? others name = some inner' ∧ related inner inner'

section Carries

variable {related : Entry → Entry → Prop} (carries : Carries related)
include carries

/-- Segments that have been followed from a field are followed from a related one, to a related
one. -/
theorem followSegments_of_carries {steps : Nat} {path : List String} {entry entry' : Entry}
    {cursor : Cursor} {final : Reached} (alike : related entry entry')
    (ok : followSegments steps ⟨path, entry, cursor⟩ = .ok final) :
    ∃ found, followSegments steps ⟨path, entry', cursor⟩ =
      .ok ⟨final.path, found, final.cursor⟩ ∧ related final.entry found := by
  induction steps generalizing path entry entry' cursor with
  | zero =>
      cases ok
      exact ⟨entry', rfl, alike⟩
  | succ steps ih =>
      cases entry with
      | type descriptor =>
          obtain ⟨descriptor', rfl⟩ := carries.type alike
          cases ok
          exact ⟨_, rfl, alike⟩
      | nested fields =>
          obtain ⟨others, rfl, inside⟩ := carries.nested alike
          simp only [followSegments] at ok ⊢
          split at ok
          · cases ok
            exact ⟨_, rfl, alike⟩
          · next segment found =>
              split at ok
              · cases ok
              · next inner here =>
                  obtain ⟨inner', there, alike⟩ := inside here
                  rw [there]
                  exact ih alike ok

/-- A reference is read with a schema that has related fields, to the field that it has there. -/
theorem reference?_of_carries {schema other : Schema}
    (fields : ∀ {name entry}, Dict.get? schema name = some entry →
      ∃ entry', Dict.get? other name = some entry' ∧ related entry entry')
    {cursor : Cursor} {parsed : Parsed} (ok : reference? schema cursor = .ok (some parsed)) :
    ∃ path entry entry' extent next, related entry entry' ∧
      parsed = (.identifier path entry.descriptor extent, next) ∧
      reference? other cursor = .ok (some (.identifier path entry'.descriptor extent, next)) := by
  simp only [reference?] at ok ⊢
  split at ok
  · cases ok
  · split at ok
    · cases ok
    · next name _ entry here =>
        obtain ⟨entry', there, alike⟩ := fields here
        obtain ⟨final, walked, done⟩ := ok_of_bind ok
        obtain ⟨found, walked', last⟩ := followSegments_of_carries carries alike walked
        cases done
        rw [there]
        dsimp only
        rw [walked']
        exact ⟨_, _, _, _, _, last, rfl, rfl⟩

end Carries

end Mixfix.Parse
