import Mixfix.Text.Cursor

/-!
# Locations

Where in a source text something happened: line and column, counted from one, and the part of the
line around it. A location is drawn with a caret under the column. The part of the line that is kept
and the place of the caret are clipped by the same radius, so the caret stands under the character
at the offset.
-/

set_option autoImplicit false

namespace Mixfix

/-- A place in a source text, for people. -/
structure Location where
  /-- The byte offset. -/
  offset : Nat
  /-- The line, from one. -/
  line : Nat
  /-- The column in characters, from one. -/
  column : Nat
  /-- The line around the column. -/
  snippet : String
deriving DecidableEq

namespace Location

/-- The characters of a text before a cursor in it. -/
def before (source : String) (cursor : Cursor) : List Char :=
  source.toList.take (source.toList.length - cursor.rest.length)

/-- The characters since the last line feed. -/
def currentLine (text : List Char) : List Char :=
  (text.reverse.takeWhile (· != '\n')).reverse

/-- Locates a byte offset in a source text, with at most `radius` characters of the line on either
side. An offset beyond the text is its end, and one inside a character is the character's start. -/
def locate (source : String) (offset radius : Nat) : Location :=
  let cursor := Cursor.atOffset source offset
  let before := before source cursor
  let left := currentLine before
  let line := left ++ cursor.rest.takeWhile (· != '\n')
  { offset := cursor.offset
    line := before.count '\n' + 1
    column := left.length + 1
    snippet := String.ofList ((line.drop (left.length - radius)).take (radius * 2 + 1)) }

/-- The location of an offset when there is no source text to measure. -/
def bare (offset : Nat) : Location := ⟨offset, 1, offset + 1, ""⟩

/-- A message with its location, and the snippet with a caret under the column. -/
def render (kind message : String) (location : Location) (radius : Nat) : String :=
  let head := "error[" ++ kind ++ "]: " ++ message ++ "\n  --> line " ++ toString location.line ++
    ", column " ++ toString location.column ++ "\n"
  if location.snippet.isEmpty then head
  else
    let indent := String.ofList (List.replicate (min (location.column - 1) radius) ' ')
    head ++ "   |\n   | " ++ location.snippet ++ "\n   | " ++ indent ++ "^\n"

end Location

end Mixfix
