import Mixfix.Proofs.Parse.Inlining
import Mixfix.Proofs.Text.Respacing

/-!
# Literals and references beside a gap

Where a cursor finds a literal that does not go on across the gap, the one alongside it finds the same
literal (`Alongside.constant?`), and where it finds a reference the same reference
(`Alongside.reference?`).
-/

set_option autoImplicit false

namespace Mixfix.Parse

open Lexeme
open Unicode (isAsciiDigit)
open Cursor (isBlank)

/-- What is taken ahead is the text before what is left. -/
theorem spells_of_reaches {cursor next : Cursor} {text : List Char} (reaches : cursor.Reaches next)
    (ahead : cursor.rest = text ++ next.rest) : cursor.Spells text next := by
  obtain ⟨taken, spells⟩ := reaches.spells
  obtain rfl : text = taken := List.append_cancel_right (ahead.symm.trans spells.1)
  exact spells

namespace Alongside

variable {gap : Gap} {cursor cursor' next : Cursor} {schema : Schema} {tree : Tree}

/-- The same literal is read in the other text. -/
theorem constant? (along : Alongside gap cursor cursor') {lexeme : Lexeme Value}
    (found : Parse.constant? cursor = .ok (some lexeme)) (ends : endsPath lexeme.next.rest = true)
    (apart : ∀ content, lexeme.content = .string content →
      lexeme.span.stop ≤ gap.start.offset ∨ gap.start.offset ≤ lexeme.span.start) :
    ∃ lexeme', Parse.constant? cursor' = .ok (some lexeme') ∧ lexeme'.content = lexeme.content ∧
      Alongside gap lexeme.next lexeme'.next := by
  obtain ⟨text, literal, ahead⟩ := exists_isLiteral found
  obtain ⟨span, passes⟩ := starts_of_constant? found
  have outside : (∀ c ∈ text, isBlank c = false) ∨ lexeme.next.offset ≤ gap.start.offset ∨
      gap.start.offset ≤ cursor.skipBlanks.offset := by
    refine literal.solid_or_string.imp_right fun ⟨content, same⟩ => ?_
    have clear := apart content same
    rwa [span] at clear
  obtain ⟨behind, ahead', along', heads⟩ :=
    along.spells (spells_of_reaches passes.reaches ahead) outside
  exact ⟨_, constant?_of_isLiteral literal (endsPath_of_heads heads ends) ahead', rfl, along'⟩

/-- The same reference is read in the other text, and there is no literal. -/
theorem reference? (along : Alongside gap cursor cursor')
    (found : Parse.reference? schema cursor = .ok (some (tree, next)))
    (noConstant : Parse.constant? cursor = .ok none) (ends : endsPath next.rest = true) :
    ∃ path type extent extent' next', tree = .identifier path type extent ∧
      Parse.reference? schema cursor' = .ok (some (.identifier path type extent', next')) ∧
      Parse.constant? cursor' = .ok none ∧ Alongside gap next next' := by
  obtain ⟨first, segments, entry, resolved, words, same, ahead, keywords⟩ :=
    exists_path found noConstant ends
  have spells := spells_of_reaches (passes_of_reference? found).reaches ahead
  obtain ⟨behind, ahead', along', heads⟩ := along.spells spells (.inl (solid_pathText words))
  have clear := endsPath_of_heads heads ends
  exact ⟨_, _, _, _, _, same, reference?_dotted ahead' words resolved clear,
    constant?_word ahead' (words first List.mem_cons_self) clear keywords, along'⟩

end Alongside

end Mixfix.Parse
