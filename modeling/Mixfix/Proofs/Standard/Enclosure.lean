import Mixfix.Proofs.Parse.Enclosure
import Mixfix.Proofs.Standard.Written

/-!
# Expressions in front of parentheses

What is written somewhere is written there as well if other text stands before it and a parenthesis
stands behind it, under any limit that is not lower (`Written.enclosed`).
-/

set_option autoImplicit false

namespace Mixfix.Standard

open Parse Lexeme

variable (enclosure : Enclosure)

/-! ## Tokens -/

theorem keepsParens_table : KeepsParens table.tokens := by
  rw [tokens_table]
  unfold KeepsParens
  decide

/-- All registered texts are marks. -/
theorem isMark_table : ∀ token ∈ table.tokens, IsMark token := by
  rw [tokens_table]
  unfold IsMark
  decide

/-- Tokens other than parentheses are found in an enclosed text as in the text alone. -/
theorem token?_table_enclosed {token : String} (registered : token ∈ table.tokens)
    (other : token ≠ openParen ∧ token ≠ closeParen) (cursor : Cursor) :
    token? table.tokens token (cursor.enclosed enclosure) =
      (token? table.tokens token cursor).map (enclosed enclosure) := by
  refine token?_enclosed enclosure keepsParens_table (isMark_table token registered).1 ?_ cursor
  rw [← not_or]
  intro paren
  rcases keepsParens_table token registered paren with same | same
  · exact other.1 same
  · exact other.2 same

theorem Infix.token_ne_paren : ∀ op ∈ infixes, op.token ≠ openParen ∧ op.token ≠ closeParen := by
  decide

theorem Opener.token_ne_paren : ∀ op ∈ openers, op.token ≠ openParen ∧ op.token ≠ closeParen := by
  decide

/-! ## Operators ahead -/

theorem sameAhead_enclosed (cursor : Cursor) : SameAhead (cursor.enclosed enclosure) cursor := by
  intro c mem
  obtain ⟨token, registered, stands, shape⟩ := exists_token mem
  have other : token ≠ openParen ∧ token ≠ closeParen := by
    rcases shape with ⟨rfl, _⟩ | ⟨op, known, rfl, _⟩
    · decide
    · exact op.token_ne_paren known
  rw [stands, stands, token?_table_enclosed enclosure registered other, Option.isSome_map]

theorem extender?_enclosed (left : Tree) (cursor : Cursor) :
    extender? (left.shifted enclosure.lead) (cursor.enclosed enclosure) =
      extender? left cursor :=
  extender?_congr (left.type_shifted _) (sameAhead_enclosed enclosure cursor)

variable {floor : Precedence} {tree : Tree} {cursor next : Cursor}

theorem Stops.enclosed (stops : Stops floor tree next) :
    Stops floor (tree.shifted enclosure.lead) (next.enclosed enclosure) :=
  stops.congr (tree.type_shifted _) (sameAhead_enclosed enclosure next).covered

/-! ## Nodes -/

theorem Infix.shifted_node (op : Infix) (left right : Tree) (next : Cursor) :
    (op.node left right next).shifted enclosure.lead =
      op.node (left.shifted enclosure.lead) (right.shifted enclosure.lead)
        (next.enclosed enclosure) := by
  simp only [Infix.node, nodeOf, Tree.shifted_ofMatch, Tree.shiftedBindings, Tree.span_shifted]
  rfl

theorem Opener.shifted_node (op : Opener) (operand : Tree) (start : Nat) (next : Cursor) :
    (op.node operand start next).shifted enclosure.lead =
      op.node (operand.shifted enclosure.lead) (enclosure.lead + start)
        (next.enclosed enclosure) := by
  simp only [Opener.node, nodeOf, Tree.shifted_ofMatch, Tree.shiftedBindings]
  rfl

theorem shifted_choiceNode (condition positive negative : Tree) (next : Cursor) :
    (choiceNode condition positive negative next).shifted enclosure.lead =
      choiceNode (condition.shifted enclosure.lead) (positive.shifted enclosure.lead)
        (negative.shifted enclosure.lead) (next.enclosed enclosure) := by
  simp only [choiceNode, nodeOf, Tree.shifted_ofMatch, Tree.shiftedBindings, Tree.span_shifted]
  rfl

/-! ## What is written -/

variable {schema : Schema} {limit depth : Nat}

theorem token?_some_enclosed {token : String} {lexeme : Lexeme String}
    (registered : token ∈ table.tokens) (found : token? table.tokens token cursor = some lexeme) :
    token? table.tokens token (cursor.enclosed enclosure) = some (lexeme.enclosed enclosure) :=
  token?_mark_enclosed enclosure keepsParens_table (isMark_table token registered) found

theorem token?_none_enclosed {token : String} (registered : token ∈ table.tokens)
    (other : token ≠ openParen ∧ token ≠ closeParen)
    (missing : token? table.tokens token cursor = none) :
    token? table.tokens token (cursor.enclosed enclosure) = none := by
  rw [token?_table_enclosed enclosure registered other, missing]
  rfl

/-- No other registered text starts with a parenthesis. -/
theorem isShadowed_paren {token : String} (paren : token = openParen ∨ token = closeParen)
    (cursor : Cursor) : isShadowed table.tokens token.toList cursor = false := by
  have unshadowed : ∀ token ∈ table.tokens,
      (openParen.toList.length < token.toList.length && openParen.toList.isPrefixOf token.toList) =
        false ∧
      (closeParen.toList.length < token.toList.length && closeParen.toList.isPrefixOf token.toList) =
        false := by
    rw [tokens_table]
    decide
  rw [isShadowed, List.any_eq_false]
  intro longer registered
  dsimp only
  rcases paren with rfl | rfl
  · rw [(unshadowed longer registered).1]
    exact Bool.false_ne_true
  · rw [(unshadowed longer registered).2]
    exact Bool.false_ne_true

theorem toList_openParen : openParen.toList = ['('] := rfl

theorem toList_closeParen : closeParen.toList = [')'] := rfl

/-- A parenthesis is found where one stands. -/
theorem token?_paren {token : String} (paren : token = openParen ∨ token = closeParen) {c : Char}
    (text : token.toList = [c]) {offset : Nat} {behind : List Char}
    (ahead : cursor.skipBlanks = ⟨offset, c :: behind⟩) :
    token? table.tokens token cursor =
      some ⟨token, ⟨offset, offset + 1⟩, ⟨offset + 1, behind⟩⟩ := by
  have registered : token ∈ table.tokens := paren.elim (· ▸ paren_mem.1) (· ▸ paren_mem.2)
  have size : c.utf8Size = 1 := by
    rcases paren with rfl | rfl
    · cases toList_openParen.symm.trans text
      decide
    · cases toList_closeParen.symm.trans text
      decide
  have stands : standsAt token.toList cursor.skipBlanks = true := by
    rw [(isMark_table token registered).standsAt_iff, text, ahead]
    exact ⟨behind, rfl⟩
  rw [token?_eq_some_iff.mpr ⟨stands, isShadowed_paren paren _, rfl⟩]
  simp [Lexeme.ahead, text, Cursor.advance, ahead, byteLength, size]

theorem token?_openParen_eq_none_iff {cursor : Cursor} :
    token? table.tokens openParen cursor = none ↔ cursor.skipBlanks.rest.head? ≠ some '(' := by
  constructor
  · intro missing begins
    obtain ⟨behind, ahead⟩ := List.head?_eq_some_iff.mp begins
    have here : cursor.skipBlanks = ⟨cursor.skipBlanks.offset, '(' :: behind⟩ := by rw [← ahead]
    cases missing.symm.trans (token?_paren (.inl rfl) toList_openParen here)
  · intro other
    exact token?_eq_none_of_head (by decide) other

/-- Where something else stands no opening parenthesis comes into being. -/
theorem shut_enclosed (shut : token? table.tokens openParen cursor = none)
    (something : cursor.skipBlanks.rest ≠ []) :
    token? table.tokens openParen (cursor.enclosed enclosure) = none := by
  rw [token?_openParen_eq_none_iff] at shut ⊢
  rw [Cursor.skipBlanks_enclosed, Cursor.enclosed, List.head?_append,
    List.head?_eq_some_head something, Option.some_or, ← List.head?_eq_some_head something]
  exact shut

/-- What is written is written in an enclosed text as well, and under a higher limit. -/
theorem Written.enclosed (written : Written schema limit depth floor tree cursor next)
    {higher : Nat} (le : limit ≤ higher) (extra : Nat) :
    Written schema higher (depth + extra) floor (tree.shifted enclosure.lead)
      (cursor.enclosed enclosure) (next.enclosed enclosure) := by
  induction written with
  | @constant depth floor cursor lexeme shut found =>
      have tree : (literalTree lexeme).1.shifted enclosure.lead =
          (literalTree (lexeme.enclosed enclosure)).1 :=
        congrArg Prod.fst (literalTree_enclosed enclosure lexeme).symm
      rw [tree, Nat.succ_add]
      exact .constant (shut_enclosed enclosure shut (starts_of_constant? found).2.rest_ne_nil)
        (constant?_enclosed enclosure found)
  | field shut noConstant noOpener found =>
      rw [Nat.succ_add]
      exact .field (shut_enclosed enclosure shut (passes_of_reference? found).rest_ne_nil)
        (constant?_enclosed enclosure noConstant)
        (fun op known => token?_none_enclosed enclosure (op.token_mem known)
          (op.token_ne_paren known) (noOpener op known))
        (reference?_enclosed enclosure found)
  | group opened inside ends closed ih =>
      rw [Tree.shifted_widen, Nat.succ_add]
      exact .group (token?_some_enclosed enclosure paren_mem.1 opened) ih
        (ends.enclosed enclosure) (token?_some_enclosed enclosure paren_mem.2 closed)
  | opener known shut noConstant led inside ends accepted shallow ih =>
      have something := (starts_of_standard (Opener.token_mem _ known) led).2.rest_ne_nil
      rw [← Tree.depth_shifted enclosure.lead, Opener.shifted_node] at shallow
      rw [Opener.shifted_node, Nat.succ_add]
      exact .opener known (shut_enclosed enclosure shut something)
        (constant?_enclosed enclosure noConstant)
        (token?_some_enclosed enclosure (Opener.token_mem _ known) led)
        ih (ends.enclosed enclosure) (by simpa only [Tree.type_shifted] using accepted)
        (Nat.le_trans shallow le)
  | between known tight before chosen led inside ends accepted shallow left right =>
      rw [← Tree.depth_shifted enclosure.lead, Infix.shifted_node] at shallow
      rw [Nat.succ_add] at left
      rw [Infix.shifted_node, Nat.succ_add]
      exact .between known tight left (by rw [extender?_enclosed, chosen])
        (token?_some_enclosed enclosure (Infix.token_mem _ known) led)
        right (ends.enclosed enclosure) (by simpa only [Tree.type_shifted] using accepted)
        (Nat.le_trans shallow le)
  | chosen tight before extended led inside ends divided last lastEnds shallow first second third =>
      rw [← Tree.depth_shifted enclosure.lead, shifted_choiceNode] at shallow
      rw [Nat.succ_add] at first
      rw [shifted_choiceNode, Nat.succ_add]
      exact .chosen tight first (by rw [extender?_enclosed, extended])
        (token?_some_enclosed enclosure choice_mem.1 led) second
        (ends.enclosed enclosure) (token?_some_enclosed enclosure choice_mem.2 divided)
        third (lastEnds.enclosed enclosure) (Nat.le_trans shallow le)

end Mixfix.Standard
