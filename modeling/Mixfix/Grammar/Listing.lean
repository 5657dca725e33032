import Mixfix.Grammar.Build
import Mixfix.Text.Quoted

/-!
# Listings of grammars

A grammar for people: its nodes by precedence, the loosest level first and atoms last, each with its
pattern and the type of its result.
-/

set_option autoImplicit false

namespace Mixfix

/-- The word for a kind of literals. -/
def LiteralKind.text : LiteralKind → String
  | .number => "number"
  | .string => "string"
  | .identifier => "identifier"
  | .keyword word => word.text

/-- A text with the name that it is known by. -/
def withName (text : String) : Option String → String
  | some name => text ++ " as " ++ name
  | none => text

mutual
/-- The text of an element of a pattern. -/
def elementText : Element String → String
  | .text token => Text.quoted token
  | .literal kind name => withName kind.text name
  | .operand role (some type) name => withName (role.text ++ ":" ++ type) name
  | .operand role none name => withName role.text name
  | .optional group => "[" ++ " ".intercalate (elementTexts group) ++ "]"
/-- The texts of the elements of a pattern. -/
def elementTexts : List (Element String) → List String
  | [] => []
  | element :: elements => elementText element :: elementTexts elements
end

/-- The text of a pattern. -/
def patternText (pattern : List (Element String)) : String := " ".intercalate (elementTexts pattern)

/-- The text of the type of a result. -/
def ResultType.text : ResultType String → String
  | .fixed type => type
  | .sole => "sole binding"
  | .union names => "union of " ++ ", ".intercalate names

namespace Grammar

/-- The line of a node; its name is padded to a width. -/
def nodeLine (width : Nat) (definition : Definition) : String :=
  let padding := String.ofList (List.replicate (width - definition.name.length) ' ')
  "  " ++ definition.name ++ padding ++ "  " ++ patternText definition.pattern ++ "  -> " ++
    definition.result.text ++ "\n"

/-- The lines of a precedence; without nodes there are none. -/
def section? (grammar : Grammar) (width : Nat) (precedence : Precedence) : String :=
  match grammar.nodesAt precedence with
  | [] => ""
  | nodes => "level " ++ precedence.text ++ "\n" ++ String.join (nodes.map (nodeLine width))

/-- The listing of a grammar. Names are padded to the bytes of the longest one. -/
def listing (grammar : Grammar) : String :=
  let width := (grammar.definitions.map (·.name.utf8ByteSize)).foldl max 0
  let precedences := grammar.numbers.map Precedence.level ++ [.atom]
  String.join (precedences.map (grammar.section? width))

end Grammar

end Mixfix
