import Mixfix.Parse.Expression
import Mixfix.Proofs.Grammar.Index

/-!
# Parsing goes by the index

The parser finds its candidates and tokens in the index of the grammar. Over two settings that agree on
what it finds there (`Setting.Agrees`) every function of the parser is the same, from the match of an
element (`matchElement_of_agrees`) to the parse of a text (`run_of_agrees`).

Such are the settings of the same index over another list of productions (`Setting.reorder`).
-/

set_option autoImplicit false

namespace Mixfix

/-- A parse cannot tell two settings apart: it finds the same candidates and the same registered texts
in both. -/
structure Setting.Agrees (other setting : Setting) : Prop where
  atoms : other.grammar.atoms = setting.grammar.atoms
  openers : other.grammar.openers = setting.grammar.openers
  extendingFrom (floor : Precedence) :
    other.grammar.extendingFrom floor = setting.grammar.extendingFrom floor
  token? (text : String) (cursor : Cursor) :
    Lexeme.token? other.grammar.tokens text cursor =
      Lexeme.token? setting.grammar.tokens text cursor
  schema : other.schema = setting.schema
  limit : other.limit = setting.limit

namespace Parse

variable {other setting : Setting}

/-! ## Candidates -/

mutual
theorem matchElement_of_agrees (agrees : other.Agrees setting) (operand : Operand) (node : String)
    (precedence : Precedence) : (element : Element Descriptor) → (progress : Progress) →
    matchElement other operand node precedence element progress =
      matchElement setting operand node precedence element progress
  | .text token, progress => by simp only [matchElement, agrees.token?]
  | .literal kind name, progress => by simp only [matchElement, matchLiteral, agrees.schema]
  | .operand role constraint name, progress => by simp only [matchElement]
  | .optional group, progress => by
      simp only [matchElement, matchElements_of_agrees agrees operand node precedence group]
/-- Elements are matched by the index alone. -/
theorem matchElements_of_agrees (agrees : other.Agrees setting) (operand : Operand) (node : String)
    (precedence : Precedence) : (elements : List (Element Descriptor)) → (progress : Progress) →
    matchElements other operand node precedence elements progress =
      matchElements setting operand node precedence elements progress
  | [], progress => by simp only [matchElements]
  | element :: elements, progress => by
      simp only [matchElements, matchElement_of_agrees agrees operand node precedence element,
        matchElements_of_agrees agrees operand node precedence elements]
end

variable (agrees : other.Agrees setting)
include agrees

section Candidates

variable (operand : Operand)

theorem matchPattern_of_agrees (production : Production) (precedence : Precedence)
    (elements : List (Element Descriptor)) (cursor : Cursor) :
    matchPattern other operand production precedence elements cursor =
      matchPattern setting operand production precedence elements cursor := by
  simp only [matchPattern, matchElements_of_agrees agrees]

theorem noteLeft_of_agrees (production : Production) (left : Tree) (type : Descriptor)
    (cursor : Cursor) :
    noteLeft other production left type cursor = noteLeft setting production left type cursor := by
  simp only [noteLeft, agrees.token?]

theorem matchExtending_of_agrees (production : Production) (precedence : Precedence) (left : Tree)
    (cursor : Cursor) :
    matchExtending other operand production precedence left cursor =
      matchExtending setting operand production precedence left cursor := by
  simp only [matchExtending, matchPattern_of_agrees agrees, noteLeft_of_agrees agrees]

theorem finish_of_agrees (production : Production) (bindings : Bindings) (start : Nat)
    (next : Cursor) :
    finish other production bindings start next = finish setting production bindings start next := by
  simp only [finish, agrees.limit]

/-! ## Expressions -/

theorem firstStart_of_agrees (candidates : List Production) (cursor : Cursor) :
    firstStart other operand candidates cursor = firstStart setting operand candidates cursor := by
  induction candidates with
  | nil => rfl
  | cons candidate candidates ih =>
      simp only [firstStart, matchPattern_of_agrees agrees, finish_of_agrees agrees, ih]

theorem firstExtension_of_agrees (left : Tree) (candidates : List (UInt32 × Production))
    (cursor : Cursor) :
    firstExtension other operand left candidates cursor =
      firstExtension setting operand left candidates cursor := by
  induction candidates with
  | nil => rfl
  | cons candidate candidates ih =>
      simp only [firstExtension, matchExtending_of_agrees agrees, finish_of_agrees agrees, ih]

theorem extend_of_agrees (candidates : List (UInt32 × Production)) (steps : Nat) (parsed : Parsed) :
    extend other operand candidates steps parsed =
      extend setting operand candidates steps parsed := by
  induction steps generalizing parsed with
  | zero => rfl
  | succ steps ih => simp only [extend, firstExtension_of_agrees agrees, ih]

theorem atom_of_agrees (cursor : Cursor) :
    atom other operand cursor = atom setting operand cursor := by
  simp only [atom, firstStart_of_agrees agrees, agrees.atoms, agrees.token?, parenthesized,
    literalOrLater, openerOrReference, agrees.openers, agrees.schema]

end Candidates

/-- Expressions are read by the index alone. -/
theorem expression_of_agrees (depth : Nat) : expression other depth = expression setting depth := by
  induction depth with
  | zero =>
      funext floor cursor
      simp only [expression, agrees.limit]
  | succ depth ih =>
      funext floor cursor
      simp only [expression, climb, ih, atom_of_agrees agrees, extend_of_agrees agrees,
        agrees.extendingFrom]

/-! ## Texts -/

theorem run_of_agrees (source : String) : run other source = run setting source := by
  simp only [run, expression_of_agrees agrees, agrees.limit]

theorem atStart_of_agrees (source : String) : atStart other source = atStart setting source := by
  simp only [atStart, run_of_agrees agrees]

theorem whole_of_agrees (source : String) : whole other source = whole setting source := by
  simp only [whole, run_of_agrees agrees]

end Parse

/-! ## Other lists of productions -/

/-- A setting with the same index over another list of productions. -/
def Setting.reorder (setting : Setting) (productions : List Production) : Setting :=
  { setting with grammar := setting.grammar.reorder productions }

theorem Setting.agrees_reorder (setting : Setting) (productions : List Production) :
    (setting.reorder productions).Agrees setting :=
  ⟨rfl, rfl, fun _ => rfl, fun _ _ => rfl, rfl, rfl⟩

namespace Parse

variable (setting : Setting) (productions : List Production)

theorem atStart_reorder (source : String) :
    atStart (setting.reorder productions) source = atStart setting source :=
  atStart_of_agrees (setting.agrees_reorder productions) source

theorem whole_reorder (source : String) :
    whole (setting.reorder productions) source = whole setting source :=
  whole_of_agrees (setting.agrees_reorder productions) source

end Parse

end Mixfix
