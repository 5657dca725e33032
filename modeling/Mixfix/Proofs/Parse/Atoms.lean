import Mixfix.Proofs.Parse.Candidates
import Mixfix.Proofs.Text.Tokens

/-!
# Where atoms come from

An atom is tried in a fixed order: a node with the precedence of atoms, an expression in
parentheses, a literal, a node of a numbered level that starts an expression, and a reference. An
atom that was read comes from one of these places, and everything that is tried before has come to
nothing (`atom_gives`); the other way round, each place yields its atom when everything before it
yields nothing.

An expression is an atom and a chain of extensions, and its operands are expressions that nest to a
smaller depth. What holds of all expressions is proved for these two parts
(`expression_induction`).
-/

set_option autoImplicit false

namespace Mixfix.Parse

/-! ## Literals -/

/-- The literal ahead: a number, a string or a keyword, tried in this order. -/
def constant? (cursor : Cursor) : Except Failure (Option (Lexeme Value)) :=
  match Lexeme.number? cursor with
  | some lexeme => .ok (some lexeme)
  | none =>
    match stringValue? cursor with
    | .error failure => .error failure
    | .ok (some lexeme) => .ok (some lexeme)
    | .ok none => .ok (keywordValue? cursor)

@[simp]
theorem constant?_skipBlanks (cursor : Cursor) : constant? cursor.skipBlanks = constant? cursor := by
  simp only [constant?, stringValue?, keywordValue?, Lexeme.number?_skipBlanks,
    Lexeme.string?_skipBlanks, Lexeme.keyword?_skipBlanks]

theorem starts_of_stringValue? {cursor : Cursor} {lexeme : Lexeme Value}
    (found : stringValue? cursor = .ok (some lexeme)) :
    Lexeme.Starts cursor.skipBlanks lexeme := by
  simp only [stringValue?] at found
  split at found
  · cases found
  · next inner read =>
      cases found
      exact (Lexeme.starts_of_string? read).map _
  · cases found

theorem starts_of_keywordValue? {cursor : Cursor} {lexeme : Lexeme Value}
    (found : keywordValue? cursor = some lexeme) : Lexeme.Starts cursor.skipBlanks lexeme := by
  obtain ⟨keyword, _, read⟩ := List.exists_of_findSome?_eq_some found
  obtain ⟨inner, here, rfl⟩ := Option.map_eq_some_iff.mp read
  exact (Lexeme.starts_of_keyword? here).map _

/-- A literal starts at the first character that is not blank. -/
theorem starts_of_constant? {cursor : Cursor} {lexeme : Lexeme Value}
    (found : constant? cursor = .ok (some lexeme)) :
    Lexeme.Starts cursor.skipBlanks lexeme := by
  simp only [constant?] at found
  split at found
  · next number read =>
      cases found
      exact Lexeme.starts_of_number? read
  · split at found
    · cases found
    · next string read =>
        cases found
        exact starts_of_stringValue? read
    · exact starts_of_keywordValue? (Except.ok.inj found)

variable {setting : Setting} {operand : Operand} {cursor : Cursor} {parsed : Parsed}

theorem literalOrLater_eq :
    literalOrLater setting operand cursor =
      match constant? cursor with
      | .error failure => Step.raise failure
      | .ok (some lexeme) => pure (literalTree lexeme)
      | .ok none => openerOrReference setting operand cursor := by
  unfold literalOrLater constant?
  cases Lexeme.number? cursor with
  | some lexeme => rfl
  | none =>
      rcases stringValue? cursor with failure | _ | lexeme
      · rfl
      · dsimp only
        cases keywordValue? cursor <;> rfl
      · rfl

/-! ## The places of an atom -/

/-- Where an atom that starts directly ahead of a cursor comes from. -/
inductive Origin (setting : Setting) (operand : Operand) (cursor : Cursor) : Parsed → Prop
  | atom {parsed : Parsed}
      (started : (firstStart setting operand setting.grammar.atoms cursor).Gives (some parsed)) :
      Origin setting operand cursor parsed
  | group {opening closing : Lexeme String} {tree : Tree} {next : Cursor}
      (opened : Lexeme.token? setting.grammar.tokens openParen cursor = some opening)
      (inside : (operand .loosest opening.next).Gives (tree, next))
      (closed : Lexeme.token? setting.grammar.tokens closeParen next = some closing) :
      Origin setting operand cursor
        (tree.widen ⟨opening.span.start, closing.span.stop⟩, closing.next)
  | constant {lexeme : Lexeme Value}
      (shut : Lexeme.token? setting.grammar.tokens openParen cursor = none)
      (found : constant? cursor = .ok (some lexeme)) :
      Origin setting operand cursor (literalTree lexeme)
  | opener {parsed : Parsed}
      (shut : Lexeme.token? setting.grammar.tokens openParen cursor = none)
      (noConstant : constant? cursor = .ok none)
      (started : (firstStart setting operand setting.grammar.openers cursor).Gives (some parsed)) :
      Origin setting operand cursor parsed
  | reference {parsed : Parsed}
      (shut : Lexeme.token? setting.grammar.tokens openParen cursor = none)
      (noConstant : constant? cursor = .ok none)
      (notStarted : (firstStart setting operand setting.grammar.openers cursor).Gives none)
      (found : reference? setting.schema cursor = .ok (some parsed)) :
      Origin setting operand cursor parsed

theorem openerOrReference_gives
    (shut : Lexeme.token? setting.grammar.tokens openParen cursor = none)
    (noConstant : constant? cursor = .ok none)
    (gives : (openerOrReference setting operand cursor).Gives parsed) :
    Origin setting operand cursor parsed := by
  obtain ⟨outcome, started, rest⟩ := gives.bind
  cases outcome with
  | some node =>
      cases Step.Gives.of_pure rest
      exact .opener shut noConstant started
  | none =>
      dsimp only at rest
      split at rest
      · next reference found =>
          cases Step.Gives.of_pure rest
          exact .reference shut noConstant started found
      · exact absurd rest (Step.not_gives_raiseSettled _ _)
      · exact absurd rest (Step.not_gives_raiseSettled _ _)

/-- An atom that was read comes from one of the places. -/
theorem atom_gives (gives : (atom setting operand cursor).Gives parsed) :
    Origin setting operand cursor.skipBlanks parsed := by
  obtain ⟨outcome, started, rest⟩ := gives.bind
  cases outcome with
  | some node =>
      cases Step.Gives.of_pure rest
      exact .atom started
  | none =>
      dsimp only at rest
      split at rest
      · next opening opened =>
          obtain ⟨⟨tree, next⟩, inside, closes⟩ := rest.bind
          dsimp only at closes
          split at closes
          · next closing closed =>
              cases Step.Gives.of_pure closes
              exact .group opened inside closed
          · exact absurd closes (Step.not_gives_raiseSettled _ _)
      · next shut =>
          rw [literalOrLater_eq] at rest
          split at rest
          · exact absurd rest (Step.not_gives_raise _ _)
          · next lexeme found =>
              cases Step.Gives.of_pure rest
              exact .constant shut found
          · next noConstant => exact openerOrReference_gives shut noConstant rest

/-! ## Expressions -/

/-- Something holds of every expression that is given, with the cursor it was read from. -/
def OfGivable (operand : Operand) (Holds : Cursor → Parsed → Prop) : Prop :=
  ∀ floor cursor parsed, Givable operand floor cursor parsed → Holds cursor parsed

/-- What holds of every atom and is kept by every extension holds of every expression, provided that
both follow from its holding of the operands, which nest to a smaller depth. -/
theorem expression_induction (Holds : Cursor → Parsed → Prop)
    (start : ∀ depth, OfGivable (expression setting depth) Holds → ∀ cursor parsed,
      (atom setting (expression setting depth) cursor).Gives parsed → Holds cursor parsed)
    (kept : ∀ depth, OfGivable (expression setting depth) Holds →
      ∀ floor cursor parsed extended, Holds cursor parsed →
        (firstExtension setting (expression setting depth) parsed.1
          (setting.grammar.extendingFrom floor) parsed.2).Gives (some extended) →
        Holds cursor extended)
    (depth : Nat) : OfGivable (expression setting depth) Holds := by
  induction depth with
  | zero => exact fun _ _ _ gives => absurd gives (Step.not_gives_raise _ _)
  | succ depth operands =>
      intro floor cursor parsed gives
      obtain ⟨first, started, rest⟩ := gives.bind
      exact holds_of_extend (kept depth operands floor cursor)
        (start depth operands _ _ started) rest

/-! ## Reading from a place -/

section Yields

variable (noAtoms : setting.grammar.atoms = [])
include noAtoms

/-- Without productions of the precedence of atoms, an atom is a group or comes later. -/
theorem atom_eq_of_noAtoms {result : Parsed} (yields :
    (match Lexeme.token? setting.grammar.tokens openParen cursor.skipBlanks with
      | some opening => parenthesized setting operand opening
      | none => literalOrLater setting operand cursor.skipBlanks : Step Parsed).Yields result) :
    (atom setting operand cursor).Yields result := by
  have nothing : (firstStart setting operand setting.grammar.atoms cursor.skipBlanks).Yields
      none := by
    rw [noAtoms]
    exact .of_pure _
  exact nothing.bind yields

theorem atom_yields_group {opening closing : Lexeme String} {tree : Tree} {next : Cursor}
    (opened : Lexeme.token? setting.grammar.tokens openParen cursor.skipBlanks = some opening)
    (inside : (operand .loosest opening.next).Yields (tree, next))
    (closed : Lexeme.token? setting.grammar.tokens closeParen next = some closing) :
    (atom setting operand cursor).Yields
      (tree.widen ⟨opening.span.start, closing.span.stop⟩, closing.next) := by
  refine atom_eq_of_noAtoms noAtoms ?_
  rw [opened]
  refine inside.bind ?_
  dsimp only
  rw [closed]
  exact .of_pure _

theorem atom_yields_constant {lexeme : Lexeme Value}
    (shut : Lexeme.token? setting.grammar.tokens openParen cursor.skipBlanks = none)
    (found : constant? cursor.skipBlanks = .ok (some lexeme)) :
    (atom setting operand cursor).Yields (literalTree lexeme) := by
  refine atom_eq_of_noAtoms noAtoms ?_
  rw [shut]
  dsimp only
  rw [literalOrLater_eq, found]
  exact .of_pure _

theorem atom_yields_opener
    (shut : Lexeme.token? setting.grammar.tokens openParen cursor.skipBlanks = none)
    (noConstant : constant? cursor.skipBlanks = .ok none)
    (started : (firstStart setting operand setting.grammar.openers cursor.skipBlanks).Yields
      (some parsed)) :
    (atom setting operand cursor).Yields parsed := by
  refine atom_eq_of_noAtoms noAtoms ?_
  rw [shut]
  dsimp only
  rw [literalOrLater_eq, noConstant]
  exact started.bind (.of_pure _)

theorem atom_yields_reference
    (shut : Lexeme.token? setting.grammar.tokens openParen cursor.skipBlanks = none)
    (noConstant : constant? cursor.skipBlanks = .ok none)
    (notStarted : (firstStart setting operand setting.grammar.openers cursor.skipBlanks).Yields
      none)
    (found : reference? setting.schema cursor.skipBlanks = .ok (some parsed)) :
    (atom setting operand cursor).Yields parsed := by
  refine atom_eq_of_noAtoms noAtoms ?_
  rw [shut]
  dsimp only
  rw [literalOrLater_eq, noConstant]
  refine notStarted.bind ?_
  dsimp only
  rw [found]
  exact .of_pure _

end Yields

end Mixfix.Parse
