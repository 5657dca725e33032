import Mixfix.Grammar.Precedence
import Mixfix.Lexeme.Word

/-!
# Patterns

A node is written as a pattern of elements: exact texts, literals, operands, and groups that may be
missing. Literals and operands can be given a name to be known by. Operands can be constrained to a
type, given by its text in a declaration and by a descriptor once a grammar is built, so elements
are generic in what a type is.
-/

set_option autoImplicit false

namespace Mixfix

/-- How an operand is read. -/
inductive Role where
  /-- At the start of a pattern the expression before the node, elsewhere an expression that binds
  tighter than the node. -/
  | lhs
  /-- An expression that binds at least as tightly as the node. -/
  | rhs
  /-- Any expression. -/
  | expr
deriving DecidableEq

namespace Role

/-- The word for a role. -/
def text : Role → String
  | .lhs => "lhs"
  | .rhs => "rhs"
  | .expr => "expr"

/-- The loosest precedence of an operand in a node of a precedence. -/
def floor (role : Role) (precedence : Precedence) : Precedence :=
  match role with
  | .lhs => precedence.tighter
  | .rhs => precedence
  | .expr => .loosest

end Role

/-- The kinds of literals that a pattern can ask for. -/
inductive LiteralKind where
  | number
  | string
  /-- The name of a field. -/
  | identifier
  | keyword (keyword : Keyword)
deriving DecidableEq

/-- An element of a pattern over a notion of types. -/
inductive Element (τ : Type) where
  /-- An exact text. -/
  | text (token : String)
  /-- A literal, perhaps under a name. -/
  | literal (kind : LiteralKind) (name : Option String)
  /-- An operand, perhaps of a type and under a name. -/
  | operand (role : Role) (constraint : Option τ) (name : Option String)
  /-- Elements that are all there or all missing. -/
  | optional (elements : List (Element τ))
deriving Inhabited

namespace Element

variable {τ : Type}

/-- Whether an element may be missing. -/
def isOptional : Element τ → Bool
  | .optional _ => true
  | _ => false

/-- Whether an element is an operand with the role of a left one. -/
def isLhs : Element τ → Bool
  | .operand .lhs _ _ => true
  | _ => false

/-- Gives a literal or an operand a name; other elements stay as they are. -/
def named (name : String) : Element τ → Element τ
  | .literal kind _ => .literal kind (some name)
  | .operand role constraint _ => .operand role constraint (some name)
  | element => element

/-- Constrains an operand to a type; other elements stay as they are. -/
def constrained (type : τ) : Element τ → Element τ
  | .operand role _ name => .operand role (some type) name
  | element => element

end Element

/-- How the type of a node's result is found. -/
inductive ResultType (τ : Type) where
  /-- It is fixed. -/
  | fixed (type : τ)
  /-- It is the type of the only named element. -/
  | sole
  /-- It is the union of the types of the elements with the given names. -/
  | union (names : List String)

end Mixfix
