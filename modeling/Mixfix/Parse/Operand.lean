import Mixfix.Grammar.Build
import Mixfix.Lexeme.Number
import Mixfix.Parse.Trail
import Mixfix.Schema.Basic
import Mixfix.Tree

/-!
# Literals and references

The leaves of an expression: numbers, strings, keywords, and references to fields of the schema. A
reference follows points into nested fields as far as the schema has them.
-/

set_option autoImplicit false

namespace Mixfix

/-- What a parse goes by. -/
structure Setting where
  grammar : Grammar
  schema : Schema
  /-- How deep expressions can be nested. -/
  limit : Nat

namespace Parse

/-- A tree with the cursor behind it. -/
abbrev Parsed := Tree × Cursor

/-- The tree of a literal. -/
def literalTree (lexeme : Lexeme Value) : Parsed :=
  (.literal lexeme.content ⟨lexeme.span, lexeme.span⟩, lexeme.next)

/-- The failure of a malformed string. -/
def misquotation (error : Lexeme.Misquotation) : Failure := ⟨error.offset, .quotation error.fault⟩

/-- The string ahead as a value. -/
def stringValue? (cursor : Cursor) : Except Failure (Option (Lexeme Value)) :=
  match Lexeme.string? cursor with
  | .ok none => .ok none
  | .ok (some lexeme) => .ok (some (lexeme.map .string))
  | .error error => .error (misquotation error)

/-- The first of the keywords ahead, as a value. -/
def keywordValue? (cursor : Cursor) : Option (Lexeme Value) :=
  Keyword.all.findSome? fun keyword => (Lexeme.keyword? keyword cursor).map (·.map Keyword.value)

/-! ## References -/

/-- A field that a reference has reached, with its path and the cursor behind it. -/
structure Reached where
  path : List String
  entry : Entry
  cursor : Cursor

/-- Follows segments of a path into nested fields, at most the given number of them. -/
def followSegments : Nat → Reached → Except Failure Reached
  | 0, reached => .ok reached
  | steps + 1, reached =>
    match reached.entry with
    | .type _ => .ok reached
    | .nested fields =>
      match Lexeme.segment? reached.cursor with
      | none => .ok reached
      | some segment =>
        match Dict.get? fields segment.content with
        | none => .error ⟨segment.span.start + 1, .unknownField segment.content reached.path⟩
        | some entry =>
          followSegments steps ⟨reached.path ++ [segment.content], entry, segment.next⟩

/-- The reference ahead, if an identifier stands there. -/
def reference? (schema : Schema) (cursor : Cursor) : Except Failure (Option Parsed) :=
  match Lexeme.identifier? cursor with
  | none => .ok none
  | some name =>
    match Dict.get? schema name.content with
    | none => .error ⟨name.span.start, .unknownIdentifier name.content⟩
    | some entry => do
      let reached ← followSegments name.next.rest.length ⟨[name.content], entry, name.next⟩
      let extent := Extent.bare name.span.start reached.cursor.offset
      .ok (some (.identifier reached.path reached.entry.descriptor extent, reached.cursor))

/-! ## Literals of a kind -/

/-- What a literal element of a pattern matched. -/
structure Capture where
  binding : Binding
  /-- Where the literal starts. -/
  start : Nat
  next : Cursor

/-- The literal value that an element matched. -/
def Capture.ofLexeme (lexeme : Lexeme Value) : Capture :=
  ⟨.value lexeme.content, lexeme.span.start, lexeme.next⟩

/-- The literal of a kind ahead. -/
def capture? (schema : Schema) (kind : LiteralKind) (cursor : Cursor) :
    Except Failure (Option Capture) :=
  match kind with
  | .number => .ok ((Lexeme.number? cursor).map Capture.ofLexeme)
  | .string => (stringValue? cursor).map (·.map Capture.ofLexeme)
  | .keyword keyword =>
    .ok ((Lexeme.keyword? keyword cursor).map fun lexeme =>
      Capture.ofLexeme (lexeme.map Keyword.value))
  | .identifier =>
    (reference? schema cursor).map (·.map fun (tree, next) => ⟨.tree tree, tree.span.start, next⟩)

end Parse

end Mixfix
