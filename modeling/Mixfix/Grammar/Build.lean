import Mixfix.Descriptor.Reader
import Mixfix.Grammar.Definition

/-!
# Building a grammar

A list of definitions becomes a grammar: the types in the patterns are read, and the nodes are
indexed by precedence. Nodes that start with a left operand extend an expression that is already
there; all others start one. What would make parsing stand still is refused: patterns that can match
nothing, and operands at the start of a pattern other than the left operand of a numbered level.
-/

set_option autoImplicit false

namespace Mixfix

/-! ## Errors -/

/-- Why definitions make no grammar. -/
inductive BuildError where
  | duplicateName (name : String)
  | emptyPattern (name : String)
  | leftRecursive (name : String)
  | leadingOptional (name : String)
  | nonConsuming (name : String)
  | invalidType (name : String) (error : Descriptor.ParseError)
  | duplicateBinding (name binding : String)
  | unknownBinding (name binding : String)
  | invalidUnion (name : String)
deriving DecidableEq

/-- The message of an error. -/
def BuildError.message : BuildError → String
  | .duplicateName name => "node `" ++ name ++ "` is defined more than once"
  | .emptyPattern name => "node `" ++ name ++ "` has an empty pattern or optional group"
  | .leftRecursive name =>
    "node `" ++ name ++ "` starts with an operand that would re-enter its own precedence"
  | .leadingOptional name => "node `" ++ name ++ "` starts with an optional group"
  | .nonConsuming name => "node `" ++ name ++ "` can match without consuming input"
  | .invalidType name error => "node `" ++ name ++ "`: " ++ error.message
  | .duplicateBinding name binding =>
    "node `" ++ name ++ "` binds `" ++ binding ++ "` more than once"
  | .unknownBinding name binding =>
    "node `" ++ name ++ "` computes a union over unknown binding `" ++ binding ++ "`"
  | .invalidUnion name => "node `" ++ name ++ "` computes a union over fewer than two bindings"

/-! ## Productions -/

/-- A definition with its types read. -/
structure Production where
  definition : Definition
  elements : List (Element Descriptor)
  result : ResultType Descriptor

namespace Production

/-- The name of the node. -/
def name (production : Production) : String := production.definition.name

/-- The precedence of the node. -/
def precedence (production : Production) : Precedence := production.definition.precedence

/-- Whether the node extends an expression that is already there. -/
def isExtending (production : Production) : Bool := production.elements.head?.any Element.isLhs

end Production

/-- Adds the name of an element to the names in use. -/
def addName (node : String) (inUse : List String) : Option String → Except BuildError (List String)
  | none => .ok inUse
  | some name =>
    if inUse.contains name then .error (.duplicateBinding node name) else .ok (inUse ++ [name])

/-- Reads the type in a declaration of a node. -/
def readType (node text : String) : Except BuildError Descriptor :=
  match Descriptor.parse text with
  | .ok descriptor => .ok descriptor
  | .error error => .error (.invalidType node error)

/-- Reads the type that an operand is constrained to, if it is. -/
def readConstraint (node : String) : Option String → Except BuildError (Option Descriptor)
  | none => .ok none
  | some text => (readType node text).map some

mutual
/-- Reads the types in an element and adds its names to those in use. -/
def compileElement (node : String) (inUse : List String) :
    Element String → Except BuildError (Element Descriptor × List String)
  | .text token => if token.isEmpty then .error (.nonConsuming node) else .ok (.text token, inUse)
  | .literal kind name => do
    let inUse ← addName node inUse name
    .ok (.literal kind name, inUse)
  | .operand role constraint name => do
    let inUse ← addName node inUse name
    let constraint ← readConstraint node constraint
    .ok (.operand role constraint name, inUse)
  | .optional group => do
    if group.isEmpty then .error (.emptyPattern node)
    else if group.all Element.isOptional then .error (.nonConsuming node)
    else
      let (group, inUse) ← compileElements node inUse group
      .ok (.optional group, inUse)
/-- Reads the types in elements and adds their names to those in use. -/
def compileElements (node : String) (inUse : List String) :
    List (Element String) → Except BuildError (List (Element Descriptor) × List String)
  | [] => .ok ([], inUse)
  | element :: elements => do
    let (element, inUse) ← compileElement node inUse element
    let (elements, inUse) ← compileElements node inUse elements
    .ok (element :: elements, inUse)
end

/-- Reads the type of a result over the names in use. -/
def compileResult (node : String) (inUse : List String) :
    ResultType String → Except BuildError (ResultType Descriptor)
  | .fixed text => do
    let descriptor ← readType node text
    .ok (if descriptor.isUnknown then .sole else .fixed descriptor)
  | .sole => .ok .sole
  | .union names =>
    if names.length < 2 then .error (.invalidUnion node)
    else
      match names.find? fun name => !inUse.contains name with
      | some name => .error (.unknownBinding node name)
      | none => .ok (.union names)

/-- Refuses patterns that could be matched without moving on. -/
def checkStart (definition : Definition) : Except BuildError Unit :=
  match definition.pattern, definition.precedence with
  | [], _ => .error (.emptyPattern definition.name)
  | .optional _ :: _, _ => .error (.leadingOptional definition.name)
  | .operand .lhs _ _ :: rest, .level _ =>
    if rest.all Element.isOptional then .error (.nonConsuming definition.name) else .ok ()
  | .operand _ _ _ :: _, _ => .error (.leftRecursive definition.name)
  | _, _ => .ok ()

/-- The production of a definition. -/
def compileDefinition (definition : Definition) : Except BuildError Production := do
  checkStart definition
  let (elements, inUse) ← compileElements definition.name [] definition.pattern
  let result ← compileResult definition.name inUse definition.result
  .ok ⟨definition, elements, result⟩

/-- The productions of definitions, where the given names are taken. -/
def compileAll (taken : List String) : List Definition → Except BuildError (List Production)
  | [] => .ok []
  | definition :: definitions => do
    if taken.contains definition.name then .error (.duplicateName definition.name)
    else
      let production ← compileDefinition definition
      .ok (production :: (← compileAll (definition.name :: taken) definitions))

/-! ## Grammars -/

/-- The nodes of a numbered level that extend an expression. -/
structure Level where
  number : UInt32
  extending : List Production

/-- Productions indexed by precedence. -/
structure Grammar where
  /-- All productions, in the order of their definitions. -/
  productions : List Production
  /-- The numbered levels in use, from the loosest up. -/
  levels : List Level
  /-- The productions with the precedence of atoms. -/
  atoms : List Production
  /-- The productions of numbered levels that start an expression, from the loosest level up. -/
  openers : List Production
  /-- The exact texts of all patterns and the parentheses, longest first. -/
  tokens : List String

mutual
/-- The exact texts in an element. -/
def elementTokens : Element Descriptor → List String
  | .text token => [token]
  | .optional group => patternTokens group
  | _ => []
/-- The exact texts in a pattern. -/
def patternTokens : List (Element Descriptor) → List String
  | [] => []
  | element :: elements => elementTokens element ++ patternTokens elements
end

/-- Puts a number in its place in an ascending list without repetitions. -/
def insertLevel (number : UInt32) : List UInt32 → List UInt32
  | [] => [number]
  | other :: rest =>
    if number < other then number :: other :: rest
    else if number = other then other :: rest
    else other :: insertLevel number rest

/-- Whether a token is tried before another one: longer ones first, then by their text. -/
def precedesToken (token other : String) : Bool :=
  other.utf8ByteSize < token.utf8ByteSize ||
    (token.utf8ByteSize == other.utf8ByteSize && token < other)

/-- Puts a token in its place in an ordered list without repetitions. -/
def insertToken (token : String) : List String → List String
  | [] => [token]
  | other :: rest =>
    if precedesToken token other then token :: other :: rest
    else if token = other then other :: rest
    else other :: insertToken token rest

/-- The parenthesis that opens a group, in every grammar. -/
def openParen : String := "("

/-- The parenthesis that closes a group, in every grammar. -/
def closeParen : String := ")"

namespace Grammar

/-- The numbers of the levels in use, ascending. -/
def levelNumbers (productions : List Production) : List UInt32 :=
  productions.foldl (fun numbers production =>
    match production.precedence with
    | .level number => insertLevel number numbers
    | .atom => numbers) []

/-- The productions at a precedence that extend an expression, or those that do not. -/
def select (productions : List Production) (precedence : Precedence) (extending : Bool) :
    List Production :=
  productions.filter fun production =>
    production.precedence == precedence && production.isExtending == extending

/-- The grammar of productions. -/
def ofProductions (productions : List Production) : Grammar :=
  let numbers := levelNumbers productions
  { productions
    levels := numbers.map fun number => ⟨number, select productions (.level number) true⟩
    atoms := productions.filter (·.precedence == .atom)
    openers := numbers.flatMap fun number => select productions (.level number) false
    tokens := (openParen :: closeParen :: productions.flatMap (patternTokens ·.elements)).foldl
      (fun tokens token => insertToken token tokens) [] }

/-- Builds the grammar of definitions. -/
def build (definitions : List Definition) : Except BuildError Grammar :=
  (compileAll [] definitions).map ofProductions

/-- The definition of a node. -/
def node? (grammar : Grammar) (name : String) : Option Definition :=
  (grammar.productions.find? (·.name == name)).map (·.definition)

/-- The definitions, in order. -/
def definitions (grammar : Grammar) : List Definition :=
  grammar.productions.map (·.definition)

/-- The numbers of the levels, ascending. -/
def numbers (grammar : Grammar) : List UInt32 := grammar.levels.map (·.number)

/-- The definitions at a precedence, in order. -/
def nodesAt (grammar : Grammar) (precedence : Precedence) : List Definition :=
  grammar.definitions.filter (·.precedence == precedence)

/-- The productions that can extend an expression at a precedence or tighter, with their levels,
from the loosest level up. -/
def extendingFrom (grammar : Grammar) (floor : Precedence) : List (UInt32 × Production) :=
  (grammar.levels.filter fun level => floor.atMost (.level level.number)).flatMap fun level =>
    level.extending.map (level.number, ·)

end Grammar

end Mixfix
