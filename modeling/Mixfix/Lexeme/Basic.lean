import Mixfix.Text.Cursor

/-!
# Lexemes

A reader looks at the text ahead of a cursor and either finds its lexeme there, with what it stands
for, the span it covers and the cursor behind it, or finds nothing. Readers move nothing by
themselves: whoever asks decides whether to go on from the lexeme or from where it stood.
-/

set_option autoImplicit false

namespace Mixfix

/-- A piece of source text that a reader found. -/
structure Lexeme (α : Type) where
  /-- What the text stands for. -/
  content : α
  /-- The bytes it covers. -/
  span : Span
  /-- The cursor behind it. -/
  next : Cursor

namespace Lexeme

/-- The lexeme of the given count of characters ahead of a cursor. -/
def ahead {α : Type} (cursor : Cursor) (count : Nat) (content : α) : Lexeme α :=
  let next := cursor.advance count
  ⟨content, ⟨cursor.offset, next.offset⟩, next⟩

/-- The lexeme of the same text that stands for something made of its content. -/
def map {α β : Type} (f : α → β) (lexeme : Lexeme α) : Lexeme β :=
  ⟨f lexeme.content, lexeme.span, lexeme.next⟩

end Lexeme

end Mixfix
