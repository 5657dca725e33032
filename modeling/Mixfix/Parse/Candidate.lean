import Mixfix.Descriptor.Admission
import Mixfix.Parse.Operand

/-!
# Matching a candidate

A production is a candidate for the text ahead. Its pattern is matched element by element, where
expressions in it are read by a function that is given. A candidate that fails before any of its
exact texts was found is given up and leaves the text as it was; once one was found, the candidate
is committed and its failure is the failure of the parse. An optional group is a candidate of its
own within the pattern.
-/

set_option autoImplicit false

namespace Mixfix.Parse

/-- Reads an expression of at least a precedence. -/
abbrev Operand := Precedence → Cursor → Step Parsed

/-! ## Progress -/

/-- How far a pattern has been matched. -/
structure Progress where
  cursor : Cursor
  bindings : Bindings
  /-- Where the match starts, once something was matched. -/
  start : Option Nat
  /-- Whether an exact text was found. -/
  committed : Bool

namespace Progress

/-- Nothing matched yet. -/
def begin (cursor : Cursor) : Progress := ⟨cursor, [], none, false⟩

/-- The progress after something was matched from a start up to a cursor. -/
def moved (progress : Progress) (start : Nat) (cursor : Cursor) : Progress :=
  { progress with cursor, start := some (progress.start.getD start) }

/-- The progress with what an element matched under its name, if it has one. -/
def bound (progress : Progress) (name : Option String) (binding : Binding) : Progress :=
  match name with
  | some name => { progress with bindings := Dict.insert name binding progress.bindings }
  | none => progress

/-- The progress after an optional group was matched. -/
def joined (progress group : Progress) : Progress :=
  { cursor := group.cursor
    bindings := Dict.union progress.bindings group.bindings
    start := progress.start <|> group.start
    committed := progress.committed || group.committed }

end Progress

/-- What matching elements comes to. -/
inductive Outcome where
  | matched (progress : Progress)
  /-- An element did not match, and nothing is committed. -/
  | unmatched
  /-- The match failed, committed or not. -/
  | failed (failure : Failure) (committed : Bool)

/-- What an element asks for, for messages. -/
def wanted : Element Descriptor → String
  | .text token => "`" ++ token ++ "`"
  | .literal .number _ => "a number"
  | .literal .string _ => "a string"
  | .literal .identifier _ => "an identifier"
  | .literal (.keyword keyword) _ => "`" ++ keyword.text ++ "`"
  | .operand _ _ _ => "an expression"
  | .optional [] => ""
  | .optional (element :: _) => wanted element

/-- Adds a failure to the trail and fails the match with it. -/
def fails (failure : Failure) (committed : Bool) : StateM Trail Outcome := do
  modify (Trail.see failure)
  pure (.failed failure committed)

/-! ## Elements -/

/-- Matches a literal. -/
def matchLiteral (setting : Setting) (kind : LiteralKind) (name : Option String)
    (progress : Progress) : StateM Trail Outcome :=
  match capture? setting.schema kind progress.cursor with
  | .error failure => fails failure progress.committed
  | .ok none => pure .unmatched
  | .ok (some capture) =>
    pure (.matched ((progress.moved capture.start capture.next).bound name capture.binding))

/-- Matches an operand. -/
def matchOperand (operand : Operand) (node : String) (floor : Precedence)
    (constraint : Option Descriptor) (name : Option String) (progress : Progress) :
    StateM Trail Outcome := do
  match ← (operand floor progress.cursor).run with
  | .error failure => pure (.failed failure progress.committed)
  | .ok (tree, next) =>
    match constraint with
    | some type =>
      if type.accepts tree.type then
        pure (.matched ((progress.moved tree.span.start next).bound name (.tree tree)))
      else fails ⟨tree.span.start, .operand node type tree.type⟩ progress.committed
    | none => pure (.matched ((progress.moved tree.span.start next).bound name (.tree tree)))

mutual
/-- Matches an element. -/
def matchElement (setting : Setting) (operand : Operand) (node : String)
    (precedence : Precedence) :
    Element Descriptor → Progress → StateM Trail Outcome
  | .text token, progress =>
    match Lexeme.token? setting.grammar.tokens token progress.cursor with
    | some lexeme =>
      pure (.matched { progress.moved lexeme.span.start lexeme.next with committed := true })
    | none => pure .unmatched
  | .literal kind name, progress => matchLiteral setting kind name progress
  | .operand role constraint name, progress =>
    matchOperand operand node (role.floor precedence) constraint name progress
  | .optional group, progress => do
    match ← matchElements setting operand node precedence group (.begin progress.cursor) with
    | .matched inner => pure (.matched (progress.joined inner))
    | .unmatched => pure (.matched progress)
    | .failed failure committed =>
      if failure.isFatal || committed then pure (.failed failure true)
      else
        modify (Trail.record failure)
        pure (.matched progress)
/-- Matches elements one after the other. -/
def matchElements (setting : Setting) (operand : Operand) (node : String)
    (precedence : Precedence) :
    List (Element Descriptor) → Progress → StateM Trail Outcome
  | [], progress => pure (.matched progress)
  | element :: elements, progress => do
    match ← matchElement setting operand node precedence element progress with
    | .matched progress => matchElements setting operand node precedence elements progress
    | .unmatched =>
      if progress.committed then
        let cursor := progress.cursor.skipBlanks
        fails ⟨cursor.offset, .expectedElement node (wanted element) cursor.upcoming⟩ true
      else pure .unmatched
    | .failed failure committed => pure (.failed failure committed)
end

/-! ## Candidates -/

/-- A match of a production. -/
structure Match where
  bindings : Bindings
  start : Nat
  next : Cursor

/-- Leaves a note when the expression before a node is not of the type it asks for. The note is left
only if the node's token follows; otherwise the node was no candidate at all. -/
def noteLeft (setting : Setting) (production : Production) (left : Tree) (type : Descriptor)
    (cursor : Cursor) : Step Unit :=
  match production.elements with
  | _ :: .text token :: _ =>
    if (Lexeme.token? setting.grammar.tokens token cursor).isSome then
      Step.note ⟨left.span.start, .leftOperand production.name type left.type⟩
    else pure ()
  | _ => pure ()

/-- Matches elements of a production; nothing is matched when they are given up. -/
def matchPattern (setting : Setting) (operand : Operand) (production : Production)
    (precedence : Precedence) (elements : List (Element Descriptor)) (cursor : Cursor) :
    Step (Option Match) := do
  match ← matchElements setting operand production.name precedence elements (.begin cursor) with
  | .matched progress =>
    pure (some ⟨progress.bindings, progress.start.getD cursor.offset, progress.cursor⟩)
  | .unmatched => pure none
  | .failed failure committed =>
    if failure.isFatal || committed then Step.settle failure
    else
      Step.abandon failure
      pure none

/-- The type that a production asks of the expression before it, if it asks for one. -/
def leftConstraint (production : Production) : Option Descriptor :=
  match production.elements with
  | .operand _ constraint _ :: _ => constraint
  | _ => none

/-- Matches a production that extends an expression. -/
def matchExtending (setting : Setting) (operand : Operand) (production : Production)
    (precedence : Precedence) (left : Tree) (cursor : Cursor) : Step (Option Match) :=
  match leftConstraint production with
  | some type =>
    if type.accepts left.type then
      matchPattern setting operand production precedence production.elements.tail cursor
    else do
      noteLeft setting production left type cursor
      pure none
  | none => matchPattern setting operand production precedence production.elements.tail cursor

/-- The bindings of a match with the expression before it, if the production names it. -/
def withLeft (production : Production) (left : Tree) (bindings : Bindings) : Bindings :=
  match production.elements with
  | .operand _ _ (some name) :: _ => Dict.insert name (.tree left) bindings
  | _ => bindings

/-- The node of a match that starts at an offset. Chains grow deep without nested expressions, so
the depth of the tree is limited as well. -/
def finish (setting : Setting) (production : Production) (bindings : Bindings) (start : Nat)
    (next : Cursor) : Step Parsed :=
  let tree := Tree.ofMatch production.name bindings production.result
    (Extent.bare start next.offset)
  if setting.limit < tree.depth then Step.raise ⟨start, .tooDeep setting.limit⟩
  else pure (tree, next)

end Mixfix.Parse
