import Mixfix.Json.Printer
import Mixfix.Json.Reader
import Mixfix.Json.Value
import Mixfix.Parse.Expression
import Mixfix.Standard

/-!
# Checking an expression

An expression of the standard language is parsed against a schema and evaluated over data, both
given as JSON texts. On request it is only parsed, which tells the type of its value.
-/

set_option autoImplicit false

namespace Mixfix

/-- How deep expressions can be nested unless told otherwise. -/
def defaultLimit : Nat := 256

/-- How many characters of a line are shown on either side of a place unless told otherwise. -/
def defaultRadius : Nat := 40

namespace Check

/-- What is to be checked. -/
structure Options where
  expression : String
  /-- The JSON text of the schema. -/
  schema : Option String
  /-- The JSON text of the data. -/
  data : Option String
  /-- Whether the expression is only parsed. -/
  parseOnly : Bool
  /-- How deep expressions can be nested. -/
  limit : Option Nat

/-- What a check gives. -/
inductive Answer where
  /-- The text of the type of the expression's value. -/
  | parsed (type : String)
  /-- The value of the expression. -/
  | evaluated (json : Json)

/-- Why a check has no answer. -/
inductive Problem where
  | parse (report : Report)
  | eval (report : Report) (violations : List Violation)
  | json
  | schema (error : Schema.SchemaError)
  | build (error : BuildError)
  | io (message : String)
  | noInput

namespace Problem

/-- The message of a problem. -/
def message : Problem → String
  | .parse report => "parse error: " ++ report.text
  | .eval report _ => "evaluation error: " ++ report.text
  | .json => "invalid JSON"
  | .schema error => "invalid schema: " ++ error.message
  | .build error => "invalid grammar: " ++ error.message
  | .io message => "IO error: " ++ message
  | .noInput => "no data provided; use --data or pipe JSON to stdin"

/-- The report of a problem that has a place in the expression, with a line for each violation. -/
def diagnostic? (radius : Nat) : Problem → Option String
  | .parse report => some (report.render radius)
  | .eval report violations =>
    some (report.render radius ++
      String.join (violations.map fun violation => "  = " ++ violation.text ++ "\n"))
  | _ => none

end Problem

/-- Reads a JSON text. -/
def readJson (text : String) : Except Problem Json :=
  match Json.parse? text with
  | some json => .ok json
  | none => .error .json

/-- The schema of a JSON text; without one no fields can be read. -/
def readSchema : Option String → Except Problem Schema
  | none => .ok []
  | some text => do
    match Schema.ofJson (← readJson text) with
    | .ok schema => .ok schema
    | .error error => .error (.schema error)

/-- The data of a JSON text; it can be left out only if no fields can be read. -/
def readData (schema : Schema) : Option String → Except Problem Value
  | some text => (readJson text).map Value.ofJson
  | none => if schema.isEmpty then .ok (.object []) else .error .noInput

/-- The standard grammar. -/
def grammar : Except Problem Grammar :=
  match Standard.grammar with
  | .ok grammar => .ok grammar
  | .error error => .error (.build error)

/-- Parses the expression. -/
def parse (setting : Setting) (source : String) : Except Problem Tree :=
  match Parse.whole setting source with
  | .ok tree => .ok tree
  | .error failure => .error (.parse (failure.report source defaultRadius))

/-- Evaluates the expression. -/
def eval (setting : Setting) (source : String) (data : Value) (tree : Tree) :
    Except Problem Value :=
  match evaluate setting.grammar setting.schema data tree with
  | .ok value => .ok value
  | .error failure =>
    .error (.eval (failure.report (some source) defaultRadius) failure.cause.violations)

/-- Checks an expression. -/
def run (options : Options) : Except Problem Answer := do
  let grammar ← grammar
  let schema ← readSchema options.schema
  let setting : Setting := ⟨grammar, schema, options.limit.getD defaultLimit⟩
  let tree ← parse setting options.expression
  if options.parseOnly then .ok (.parsed tree.type.text)
  else
    let data ← readData schema options.data
    let value ← eval setting options.expression data tree
    .ok (.evaluated value.toJson)

end Check

end Mixfix
