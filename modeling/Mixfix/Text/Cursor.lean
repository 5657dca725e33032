import Mixfix.Unicode.Classes

/-!
# Cursors

A cursor stands in a source text: it knows how many bytes of UTF-8 lie before it and which
characters lie ahead. It moves in one way only, past a count of characters (`Cursor.advance`), so a
cursor reached from the start of a text always stands at a character boundary of this text
(`Cursor.liesIn_start`, `Cursor.LiesIn.advance`). Positions in messages and spans are byte offsets.
-/

set_option autoImplicit false

namespace Mixfix

/-- A range of byte offsets in a source text. -/
structure Span where
  start : Nat
  stop : Nat
deriving DecidableEq

namespace Span

/-- The count of bytes in a span. -/
def length (span : Span) : Nat := span.stop - span.start

/-- Whether a span has no bytes. -/
def isEmpty (span : Span) : Bool := span.start == span.stop

end Span

/-- The count of bytes that characters take in UTF-8. -/
def byteLength (text : List Char) : Nat :=
  text.foldr (fun c size => c.utf8Size + size) 0

/-- A character takes its own bytes before those behind it. -/
theorem byteLength_cons (c : Char) (text : List Char) :
    byteLength (c :: text) = c.utf8Size + byteLength text :=
  rfl

/-- Two pieces of text take as many bytes as both of them. -/
@[simp]
theorem byteLength_append (text behind : List Char) :
    byteLength (text ++ behind) = byteLength text + byteLength behind := by
  induction text with
  | nil => exact (Nat.zero_add _).symm
  | cons c text ih => rw [List.cons_append, byteLength_cons, byteLength_cons, ih, Nat.add_assoc]

/-- A place in a source text. -/
structure Cursor where
  /-- The count of bytes before the cursor. -/
  offset : Nat
  /-- The characters ahead. -/
  rest : List Char

namespace Cursor

/-- The start of a text. -/
def start (text : String) : Cursor := ⟨0, text.toList⟩

/-- Moves past a count of characters. -/
def advance (cursor : Cursor) (count : Nat) : Cursor :=
  ⟨cursor.offset + byteLength (cursor.rest.take count), cursor.rest.drop count⟩

/-- Moves past the characters that satisfy a test, up to the first that does not. -/
def skipWhile (test : Char → Bool) (cursor : Cursor) : Cursor :=
  cursor.advance (cursor.rest.takeWhile test).length

/-- The cursor after a text that stands ahead. -/
def strip? (text : List Char) (cursor : Cursor) : Option Cursor :=
  if text.isPrefixOf cursor.rest then some (cursor.advance text.length) else none

/-- The cursor in a text that stands at a byte offset, or before the character that the offset falls
into. -/
def atOffset (text : String) (offset : Nat) : Cursor :=
  walk offset 0 text.toList
where
  /-- Moves on from a position while the next character ends at or before the offset. -/
  walk (offset position : Nat) : List Char → Cursor
    | [] => ⟨position, []⟩
    | c :: rest =>
      if position + c.utf8Size ≤ offset then walk offset (position + c.utf8Size) rest
      else ⟨position, c :: rest⟩

/-! ## Movement -/

/-- Moving past no characters stays in place. -/
@[simp]
theorem advance_zero (cursor : Cursor) : cursor.advance 0 = cursor := by
  simp [advance, byteLength]

/-- Moving twice is moving past both counts at once. -/
@[simp]
theorem advance_advance (cursor : Cursor) (count more : Nat) :
    (cursor.advance count).advance more = cursor.advance (count + more) := by
  simp only [advance, List.drop_drop, List.take_add, byteLength_append, Nat.add_assoc]

/-- A cursor never moves back. -/
theorem offset_le_advance (cursor : Cursor) (count : Nat) :
    cursor.offset ≤ (cursor.advance count).offset :=
  Nat.le_add_right _ _

/-- Moving past characters drops them. -/
theorem rest_skipWhile (test : Char → Bool) (cursor : Cursor) :
    (cursor.skipWhile test).rest = cursor.rest.dropWhile test := by
  simp only [skipWhile, advance]
  induction cursor.rest with
  | nil => rfl
  | cons c rest ih => cases holds : test c <;> simp [holds, ih]

/-- Moving past characters twice is moving past them once. -/
@[simp]
theorem skipWhile_skipWhile (test : Char → Bool) (cursor : Cursor) :
    (cursor.skipWhile test).skipWhile test = cursor.skipWhile test := by
  have none : (cursor.skipWhile test).rest.takeWhile test = [] := by
    rw [rest_skipWhile]
    induction cursor.rest with
    | nil => rfl
    | cons c rest ih => cases holds : test c <;> simp [holds, ih]
  rw [skipWhile, none]
  exact advance_zero _

/-- A cursor stands in a text: what lies ahead is the end of the text, and the offset counts the
bytes of what lies before. -/
def LiesIn (text : String) (cursor : Cursor) : Prop :=
  ∃ before, text.toList = before ++ cursor.rest ∧ cursor.offset = byteLength before

/-- The start of a text lies in it. -/
theorem liesIn_start (text : String) : LiesIn text (start text) := ⟨[], rfl, rfl⟩

/-- A cursor that moves stays in its text. -/
theorem LiesIn.advance {text : String} {cursor : Cursor} (inside : LiesIn text cursor)
    (count : Nat) : LiesIn text (cursor.advance count) := by
  obtain ⟨before, whole, counted⟩ := inside
  refine ⟨before ++ cursor.rest.take count, ?_, ?_⟩
  · simp [Cursor.advance, whole]
  · simp [Cursor.advance, counted]

/-! ## Blanks -/

/-- The characters that separate tokens: space, tab, line feed and carriage return. -/
def isBlank (c : Char) : Bool :=
  c == ' ' || c == '\t' || c == '\n' || c == '\r'

/-- Moves past blanks. -/
def skipBlanks (cursor : Cursor) : Cursor := cursor.skipWhile isBlank

/-- Whether only blanks lie ahead. -/
def atEnd (cursor : Cursor) : Bool := cursor.skipBlanks.rest.isEmpty

/-- What lies ahead after blanks, for messages: up to twelve characters without white space. -/
def upcoming (cursor : Cursor) : String :=
  match cursor.skipBlanks.rest with
  | [] => "end of input"
  | ahead =>
    let word := (ahead.takeWhile fun c => !Unicode.isWhiteSpace c).take 12
    "`" ++ String.ofList word ++ "`"

end Cursor

end Mixfix
