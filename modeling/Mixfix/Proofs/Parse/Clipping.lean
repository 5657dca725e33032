import Mixfix.Proofs.Parse.Enclosure
import Mixfix.Proofs.Text.Clipping

/-!
# Leaves of pieces that are cut out of a text

A literal or a reference that ends within a piece of a text is read from the piece as from the text
(`constant?_clip`, `reference?_clip`).

That nothing is read is handed on as well: where no literal stands in the text there is none in the
piece, as long as the word that is ahead ends within the piece (`constant?_none_clip`). A word that
is cut in two could leave a keyword.
-/

set_option autoImplicit false

namespace Mixfix.Parse

open Lexeme

variable {lead : Nat} {tail : List Char} {cursor : Cursor}

/-! ## Literals -/

theorem stringValue?_eq_some_iff {lexeme : Lexeme Value} :
    stringValue? cursor = .ok (some lexeme) ↔
      ∃ text, string? cursor = .ok (some text) ∧ lexeme = text.map .string := by
  unfold stringValue?
  rcases string? cursor with fault | _ | text
  · simp
  · simp
  · simp [eq_comm]

theorem stringValue?_eq_none_iff :
    stringValue? cursor = .ok none ↔ string? cursor = .ok none := by
  unfold stringValue?
  rcases string? cursor with fault | _ | text <;> simp

theorem keywordValue?_clip
    (word : tail.length ≤
      ((cursor.embedded lead tail).skipBlanks.rest.dropWhile isWordChar).length) :
    keywordValue? (cursor.embedded lead tail) =
      (keywordValue? cursor).map (embedded lead tail) := by
  simp only [keywordValue?, keyword?_clip _ word, List.map_findSome?, Function.comp_def,
    Option.map_map]
  rfl

/-- Behind a keyword the word has ended. -/
theorem rest_of_keywordValue? {lexeme : Lexeme Value}
    (found : keywordValue? cursor = some lexeme) :
    lexeme.next.rest = cursor.skipBlanks.rest.dropWhile isWordChar := by
  obtain ⟨keyword, _, read⟩ := List.exists_of_findSome?_eq_some found
  obtain ⟨inner, here, rfl⟩ := Option.map_eq_some_iff.mp read
  simp only [keyword?] at here
  split at here
  · next stands =>
      cases here
      rw [← standsAt_keyword_iff.mp stands]
      exact Cursor.rest_skipWhile isWordChar cursor.skipBlanks
  · cases here

/-- Where a lexeme starts that ends within a piece, the piece is not at its end. -/
theorem rest_ne_nil_of_starts {α : Type} {lexeme : Lexeme α}
    (starts : Starts (cursor.embedded lead tail).skipBlanks lexeme)
    (inside : tail.length ≤ lexeme.next.rest.length) : cursor.skipBlanks.rest ≠ [] := by
  have shorter := starts.2.length_lt
  rw [starts.skipBlanks_embedded inside, Cursor.rest_embedded, List.length_append] at shorter
  exact List.length_pos_iff.mp (by omega)

/-- A literal that ends within a piece is read from the piece. -/
theorem constant?_clip {lexeme : Lexeme Value}
    (found : constant? (cursor.embedded lead tail) = .ok (some lexeme))
    (inside : tail.length ≤ lexeme.next.rest.length) :
    ∃ clipped, constant? cursor = .ok (some clipped) ∧ lexeme = clipped.embedded lead tail := by
  have something := rest_ne_nil_of_starts (starts_of_constant? found) inside
  unfold constant? at found ⊢
  cases number : number? (cursor.embedded lead tail) with
  | some value =>
      rw [number] at found
      cases found
      obtain ⟨clipped, own, rfl⟩ := number?_clip number inside
      exact ⟨clipped, by rw [own], rfl⟩
  | none =>
      rw [number] at found
      rw [number?_none_clip something number]
      rcases string : stringValue? (cursor.embedded lead tail) with failure | _ | value
      · rw [string] at found
        cases found
      · rw [string] at found
        have keyword : keywordValue? (cursor.embedded lead tail) = some lexeme :=
          Except.ok.inj found
        have noString := string?_none_clip something (stringValue?_eq_none_iff.mp string)
        rw [stringValue?_eq_none_iff.mpr noString]
        rw [rest_of_keywordValue? keyword] at inside
        rw [keywordValue?_clip inside] at keyword
        obtain ⟨clipped, own, rfl⟩ := Option.map_eq_some_iff.mp keyword
        exact ⟨clipped, congrArg Except.ok own, rfl⟩
      · rw [string] at found
        cases found
        obtain ⟨text, read, rfl⟩ := stringValue?_eq_some_iff.mp string
        obtain ⟨clipped, own, rfl⟩ := string?_clip read inside
        exact ⟨clipped.map .string,
          by rw [stringValue?_eq_some_iff.mpr ⟨clipped, own, rfl⟩], rfl⟩

/-- Where no literal stands in a text none stands in a piece of it that does not cut a word. -/
theorem constant?_none_clip (something : cursor.skipBlanks.rest ≠ [])
    (word : tail.length ≤
      ((cursor.embedded lead tail).skipBlanks.rest.dropWhile isWordChar).length)
    (none : constant? (cursor.embedded lead tail) = .ok none) : constant? cursor = .ok .none := by
  unfold constant? at none ⊢
  cases number : number? (cursor.embedded lead tail) with
  | some value =>
      rw [number] at none
      cases none
  | none =>
      rw [number] at none
      rw [number?_none_clip something number]
      rcases string : stringValue? (cursor.embedded lead tail) with failure | _ | value
      · rw [string] at none
        cases none
      · rw [string] at none
        have keyword : keywordValue? (cursor.embedded lead tail) = .none := Except.ok.inj none
        have noString := string?_none_clip something (stringValue?_eq_none_iff.mp string)
        rw [stringValue?_eq_none_iff.mpr noString]
        rw [keywordValue?_clip word, Option.map_eq_none_iff] at keyword
        exact congrArg Except.ok keyword
      · rw [string] at none
        cases none

/-! ## References -/

theorem segment?_none_clip (none : segment? (cursor.embedded lead tail) = none) :
    segment? cursor = .none := by
  cases found : segment? cursor with
  | none => rfl
  | some lexeme =>
      obtain ⟨c, rest, same, letter, _⟩ := segment?_eq_some_iff.mp found
      have whole : (cursor.embedded lead tail).rest = '.' :: c :: (rest ++ tail) := by
        rw [Cursor.rest_embedded, same]
        rfl
      cases none.symm.trans (segment?_eq_some_iff.mpr ⟨c, _, whole, letter, rfl⟩)

/-- Following segments moves the cursor ahead. -/
theorem length_le_of_followSegments {steps : Nat} {reached final : Reached}
    (ok : followSegments steps reached = .ok final) :
    final.cursor.rest.length ≤ reached.cursor.rest.length := by
  obtain ⟨more, _, _, _, _, next⟩ := followSegments_ok ok
  rw [next, Cursor.length_rest_advance]
  exact Nat.sub_le _ _

/-- Segments that end within a piece are followed in the piece. The number of steps does not matter
as long as there are as many as characters. -/
theorem followSegments_clip {steps fewer : Nat} {path : List String} {entry : Entry}
    {final : Reached} (long : (cursor.embedded lead tail).rest.length ≤ steps)
    (enough : cursor.rest.length ≤ fewer)
    (ok : followSegments steps ⟨path, entry, cursor.embedded lead tail⟩ = .ok final)
    (inside : tail.length ≤ final.cursor.rest.length) :
    ∃ clipped, followSegments fewer ⟨path, entry, cursor⟩ = .ok clipped ∧
      final = { clipped with cursor := clipped.cursor.embedded lead tail } := by
  have stays (none : ∀ fields, entry = .nested fields → segment? cursor = none) :
      followSegments fewer ⟨path, entry, cursor⟩ = .ok ⟨path, entry, cursor⟩ :=
    followSegments_stays none fewer
  induction steps generalizing fewer path entry cursor with
  | zero =>
      cases ok
      refine ⟨_, stays fun fields nested => segment?_eq_none_of_rest fun c rest same => ?_, rfl⟩
      rw [Cursor.rest_embedded, same] at long
      exact absurd long (Nat.not_succ_le_zero _)
  | succ steps ih =>
      rw [followSegments] at ok
      cases entry with
      | type descriptor =>
          cases ok
          exact ⟨_, stays fun fields same => (by cases same), rfl⟩
      | nested fields =>
          dsimp only at ok
          cases found : segment? (cursor.embedded lead tail) with
          | none =>
              rw [found] at ok
              cases ok
              exact ⟨_, stays fun _ _ => segment?_none_clip found, rfl⟩
          | some segment =>
              rw [found] at ok
              dsimp only at ok
              cases there : Dict.get? fields segment.content with
              | none =>
                  rw [there] at ok
                  cases ok
              | some entry =>
                  rw [there] at ok
                  have behind := Nat.le_trans inside (length_le_of_followSegments ok)
                  have shorter := (starts_of_segment? found).2.length_lt
                  obtain ⟨clipped, own, rfl⟩ := segment?_clip found behind
                  have ownShorter := (starts_of_segment? own).2.length_lt
                  cases fewer with
                  | zero => exact absurd enough (Nat.not_le.mpr (Nat.zero_lt_of_lt ownShorter))
                  | succ fewer =>
                      have content : Dict.get? fields clipped.content = some entry := there
                      simp only [followSegments, own, content]
                      exact ih (Nat.le_of_lt_succ (Nat.lt_of_lt_of_le shorter long))
                        (Nat.le_of_lt_succ (Nat.lt_of_lt_of_le ownShorter enough)) ok
                        fun none => followSegments_stays none fewer

/-- A reference that ends within a piece is read from the piece, and the word that it starts with
ends within the piece. -/
theorem reference?_clip {schema : Schema} {tree : Tree} {next : Cursor}
    (found : reference? schema (cursor.embedded lead tail) = .ok (some (tree, next)))
    (inside : tail.length ≤ next.rest.length) :
    ∃ clipped behind, reference? schema cursor = .ok (some (clipped, behind)) ∧
      tree = clipped.shifted lead ∧ next = behind.embedded lead tail ∧
      tail.length ≤
        ((cursor.embedded lead tail).skipBlanks.rest.dropWhile isWordChar).length := by
  unfold reference? at found ⊢
  cases named : identifier? (cursor.embedded lead tail) with
  | none =>
      rw [named] at found
      cases found
  | some name =>
      rw [named] at found
      dsimp only at found
      cases there : Dict.get? schema name.content with
      | none =>
          rw [there] at found
          cases found
      | some entry =>
          rw [there] at found
          dsimp only at found
          cases followed : followSegments name.next.rest.length
              ⟨[name.content], entry, name.next⟩ with
          | error failure =>
              rw [followed] at found
              cases found
          | ok reached =>
              rw [followed] at found
              cases found
              have behind := Nat.le_trans inside (length_le_of_followSegments followed)
              have word := behind
              rw [rest_of_identifier? named] at word
              obtain ⟨clipped, own, rfl⟩ := identifier?_clip named behind
              obtain ⟨final, followed', rfl⟩ :=
                followSegments_clip (Nat.le_refl _) (Nat.le_refl _) followed inside
              have content : Dict.get? schema clipped.content = some entry := there
              refine ⟨.identifier final.path final.entry.descriptor
                (Extent.bare clipped.span.start final.cursor.offset), final.cursor, ?_, ?_, rfl,
                word⟩
              · rw [own]
                dsimp only
                rw [content]
                dsimp only [embedded] at followed' ⊢
                rw [followed']
                rfl
              · simp only [Tree.shifted, Extent.bare, Extent.shifted, Span.shifted, embedded,
                  Cursor.embedded]

end Mixfix.Parse
