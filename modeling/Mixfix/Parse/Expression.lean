import Mixfix.Parse.Candidate

/-!
# Expressions

An expression is an atom, extended as often as possible by nodes that bind at least as tightly as
asked for. An atom is, in this order: a node with the precedence of atoms, an expression in
parentheses, a literal, a node of a numbered level that starts with something else than an
expression, or a reference to a field.

Expressions nest as deep as the limit of the parse allows. The recursion runs over what is left of
this limit; chains of extensions run over the characters ahead, since every extension takes some of
them.
-/

set_option autoImplicit false

namespace Mixfix.Parse

/-! ## Atoms -/

/-- The first match of productions that start an expression. -/
def firstStart (setting : Setting) (operand : Operand) :
    List Production → Cursor → Step (Option Parsed)
  | [], _ => pure none
  | production :: productions, cursor => do
    match ← matchPattern setting operand production production.precedence production.elements
        cursor with
    | some found =>
      return some (← finish setting production found.bindings found.start found.next)
    | none => firstStart setting operand productions cursor

/-- The expression in parentheses, behind the opening one. -/
def parenthesized (setting : Setting) (operand : Operand) (opening : Lexeme String) :
    Step Parsed := do
  let (tree, cursor) ← operand .loosest opening.next
  match Lexeme.token? setting.grammar.tokens closeParen cursor with
  | some closing => pure (tree.widen ⟨opening.span.start, closing.span.stop⟩, closing.next)
  | none => Step.raiseSettled ⟨opening.span.start, .unclosedParen cursor.upcoming⟩

/-- A node of a numbered level that starts an expression, or a reference. -/
def openerOrReference (setting : Setting) (operand : Operand) (cursor : Cursor) : Step Parsed := do
  match ← firstStart setting operand setting.grammar.openers cursor with
  | some parsed => pure parsed
  | none =>
    match reference? setting.schema cursor with
    | .ok (some parsed) => pure parsed
    | .ok none => Step.raiseSettled ⟨cursor.offset, .expectedExpression cursor.upcoming⟩
    | .error failure => Step.raiseSettled failure

/-- A literal, or what comes behind literals in the order of atoms. -/
def literalOrLater (setting : Setting) (operand : Operand) (cursor : Cursor) : Step Parsed :=
  match Lexeme.number? cursor with
  | some lexeme => pure (literalTree lexeme)
  | none =>
    match stringValue? cursor with
    | .error failure => Step.raise failure
    | .ok (some lexeme) => pure (literalTree lexeme)
    | .ok none =>
      match keywordValue? cursor with
      | some lexeme => pure (literalTree lexeme)
      | none => openerOrReference setting operand cursor

/-- The atom ahead. -/
def atom (setting : Setting) (operand : Operand) (cursor : Cursor) : Step Parsed := do
  let cursor := cursor.skipBlanks
  match ← firstStart setting operand setting.grammar.atoms cursor with
  | some parsed => pure parsed
  | none =>
    match Lexeme.token? setting.grammar.tokens openParen cursor with
    | some opening => parenthesized setting operand opening
    | none => literalOrLater setting operand cursor

/-! ## Extensions -/

/-- The first match of productions that extend an expression. -/
def firstExtension (setting : Setting) (operand : Operand) (left : Tree) :
    List (UInt32 × Production) → Cursor → Step (Option Parsed)
  | [], _ => pure none
  | (level, production) :: candidates, cursor => do
    match ← matchExtending setting operand production (.level level) left cursor with
    | some found =>
      let bindings := withLeft production left found.bindings
      return some (← finish setting production bindings left.span.start found.next)
    | none => firstExtension setting operand left candidates cursor

/-- Extends an expression by candidates, at most the given number of times. -/
def extend (setting : Setting) (operand : Operand) (candidates : List (UInt32 × Production)) :
    Nat → Parsed → Step Parsed
  | 0, parsed => pure parsed
  | steps + 1, (left, cursor) => do
    match ← firstExtension setting operand left candidates cursor with
    | some extended => extend setting operand candidates steps extended
    | none => pure (left, cursor)

/-- An atom and its extensions of at least a precedence. -/
def climb (setting : Setting) (operand : Operand) : Operand := fun floor cursor => do
  let parsed ← atom setting operand cursor
  extend setting operand (setting.grammar.extendingFrom floor) (parsed.2.rest.length + 1) parsed

/-- Reads an expression in which expressions can be nested up to a depth. -/
def expression (setting : Setting) : Nat → Operand
  | 0 => fun _ cursor => Step.raise ⟨cursor.skipBlanks.offset, .tooDeep setting.limit⟩
  | depth + 1 => climb setting (expression setting depth)

/-! ## Whole texts -/

/-- An expression at the start of a text, and the text behind it. -/
structure Partial where
  tree : Tree
  rest : Cursor

/-- Runs a parse of a text from its start. -/
def run (setting : Setting) (source : String) : Except Failure Parsed × Trail :=
  (expression setting setting.limit .loosest (.start source)).run.run .empty

/-- Parses an expression at the start of a text. Blanks behind it belong to neither. -/
def atStart (setting : Setting) (source : String) : Except Failure Partial :=
  match (run setting source).1 with
  | .ok (tree, cursor) => .ok ⟨tree, cursor.skipBlanks⟩
  | .error failure => .error failure

/-- The failure of a text that goes on behind an expression: a recorded one that lies farther, or
that tells more and lies within the expression, is reported in its place. -/
def trailingFailure (tree : Tree) (cursor : Cursor) (trail : Trail) : Failure :=
  let stray := (cursor.strip? closeParen.toList).isSome
  let trailing : Failure := ⟨cursor.offset, .trailing stray cursor.upcoming⟩
  match trail.furthest with
  | none => trailing
  | some best =>
    if cursor.offset < best.offset || (best.kind != .noMatch && tree.span.start ≤ best.offset) then
      best
    else trailing

/-- Parses a text as exactly one expression. -/
def whole (setting : Setting) (source : String) : Except Failure Tree :=
  match run setting source with
  | (.error failure, _) => .error failure
  | (.ok (tree, cursor), trail) =>
    let cursor := cursor.skipBlanks
    if cursor.rest.isEmpty then .ok tree else .error (trailingFailure tree cursor trail)

end Mixfix.Parse
