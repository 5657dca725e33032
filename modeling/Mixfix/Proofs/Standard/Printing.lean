import Mixfix.Proofs.Standard.Levels
import Mixfix.Proofs.Text.Literals
import Mixfix.Proofs.Text.Spacing
import Mixfix.Proofs.Tree.Shape

/-!
# Writing trees of the standard language

A tree is written as its tokens with one space between them, and an operand stands in parentheses
only where the table of levels asks for them (`needsParens`).
-/

set_option autoImplicit false

namespace Mixfix.Standard

open Parse

/-! ## Tokens -/

/-- Tokens with parentheses around them, if they need some. -/
def enclosed (needed : Bool) (tokens : List (List Char)) : List (List Char) :=
  if needed then openParen.toList :: tokens ++ [closeParen.toList] else tokens

/-- The tokens of an element, where operands are written under their names. -/
def elementTokens (operands : Dict (List (List Char))) : Element Descriptor → List (List Char)
  | .text token => [token.toList]
  | .operand _ _ (some place) => (Dict.get? operands place).getD []
  | _ => []

/-- The tokens of a node, in the order of its pattern. -/
def nodeTokens (name : String) (operands : Dict (List (List Char))) : List (List Char) :=
  match table.productions.find? (·.name == name) with
  | some production => production.elements.flatMap (elementTokens operands)
  | none => []

mutual
/-- The tokens of a tree. -/
def tokens : Tree → List (List Char)
  | .literal value _ => [spelled value]
  | .identifier path _ _ => [pathText path]
  | .node name bindings _ _ _ => nodeTokens name (operandTokens name bindings)
/-- The tokens of the operands of a node. -/
def operandTokens (name : String) : List (String × Binding) → List (String × List (List Char))
  | [] => []
  | (place, .tree tree) :: bindings =>
    (place, enclosed (needsParens name place tree) (tokens tree)) :: operandTokens name bindings
  | (_, .value _) :: bindings => operandTokens name bindings
end

/-- The text of a tree, with one space between its tokens. -/
def rendered (tree : Tree) : String := String.ofList (spaced (tokens tree))

/-! ## Expressible trees -/

/-- The trees of the standard nodes: leaves are literals and fields of the schema, operands are
accepted, and a sum joins texts exactly when its left operand is no number. -/
inductive Expressible (schema : Schema) : Tree → Prop
  | constant {value : Value} (extent : Extent) (isConstant : IsConstant value) :
      Expressible schema (.literal value extent)
  | field {path : List String} {entry : Entry} (extent : Extent)
      (resolved : schema.resolve path = some entry)
      (words : ∀ segment ∈ path, isWord segment = true)
      (noKeyword : ∀ keyword : Keyword, path.head? ≠ some keyword.text) :
      Expressible schema (.identifier path entry.descriptor extent)
  | opener {op : Opener} {operand : Tree} (extent : Extent) (known : op ∈ openers)
      (inside : Expressible schema operand)
      (accepted : ∀ type ∈ op.demand.type?, type.accepts operand.type = true) :
      Expressible schema
        (.ofMatch op.name [("operand", .tree operand)] op.production.result extent)
  | between {op : Infix} {left right : Tree} (extent : Extent) (known : op ∈ infixes)
      (before : Expressible schema left) (behind : Expressible schema right)
      (acceptedLeft : ∀ type ∈ op.demand.type?, type.accepts left.type = true)
      (acceptedRight : ∀ type ∈ op.demand.type?, type.accepts right.type = true)
      (plus : op.token = "+" →
        (op.name = "add" ↔ Descriptor.number.accepts left.type = true)) :
      Expressible schema
        (.ofMatch op.name [("left", .tree left), ("right", .tree right)] op.production.result
          extent)
  | chosen {condition positive negative : Tree} (extent : Extent)
      (asked : Expressible schema condition) (first : Expressible schema positive)
      (second : Expressible schema negative)
      (accepted : Descriptor.boolean.accepts condition.type = true) :
      Expressible schema
        (.ofMatch choice.name
          [("condition", .tree condition), ("else", .tree negative), ("then", .tree positive)]
          choice.result extent)

/-! ## The tokens of a node -/

theorem Infix.find_production : ∀ op ∈ infixes,
    table.productions.find? (·.name == op.name) = some op.production := by
  have all : infixes.map (fun op => table.productions.find? (·.name == op.name)) =
      infixes.map fun op => some op.production := rfl
  exact List.map_inj_left.mp all

theorem Opener.find_production : ∀ op ∈ openers,
    table.productions.find? (·.name == op.name) = some op.production := by
  have all : openers.map (fun op => table.productions.find? (·.name == op.name)) =
      openers.map fun op => some op.production := rfl
  exact List.map_inj_left.mp all

theorem tokens_infixNode {op : Infix} (known : op ∈ infixes) (left right : Tree) (extent : Extent) :
    tokens (.ofMatch op.name [("left", .tree left), ("right", .tree right)] op.production.result
        extent) =
      enclosed (needsParens op.name "left" left) (tokens left) ++
        op.token.toList :: enclosed (needsParens op.name "right" right) (tokens right) := by
  simp only [Tree.ofMatch, tokens, operandTokens, nodeTokens, op.find_production known]
  simp [Infix.production, elementTokens, Dict.get?_cons]

theorem tokens_opener {op : Opener} (known : op ∈ openers) (operand : Tree) (extent : Extent) :
    tokens (.ofMatch op.name [("operand", .tree operand)] op.production.result extent) =
      op.token.toList :: enclosed (needsParens op.name "operand" operand) (tokens operand) := by
  simp only [Tree.ofMatch, tokens, operandTokens, nodeTokens, op.find_production known]
  simp [Opener.production, elementTokens, Dict.get?_cons]

theorem tokens_choice (condition positive negative : Tree) (extent : Extent) :
    tokens (.ofMatch choice.name
        [("condition", .tree condition), ("else", .tree negative), ("then", .tree positive)]
        choice.result extent) =
      enclosed (needsParens "ternary" "condition" condition) (tokens condition) ++
        ['?'] :: tokens positive ++
          [':'] :: enclosed (needsParens "ternary" "else" negative) (tokens negative) := by
  have found : table.productions.find? (·.name == choice.name) = some choice := rfl
  simp only [Tree.ofMatch, tokens, operandTokens, nodeTokens, found]
  simp [choice, elementTokens, Dict.get?_cons, Production.name, ternary, needsParens, enclosed,
    Definition.computedBy, Definition.returns, Definition.plain]

end Mixfix.Standard
