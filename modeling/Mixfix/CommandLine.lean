import Mixfix.Check
import Mixfix.Grammar.Listing

/-!
# The command line

Two commands: one checks an expression, the other lists the standard grammar. A command is a value,
and so is what it writes; reading the arguments and the input and writing the output is left to the
program.
-/

set_option autoImplicit false

namespace Mixfix.CommandLine

/-- What the program is asked for. -/
inductive Command where
  /-- Check an expression, writing its value over several lines on request. -/
  | check (options : Check.Options) (pretty : Bool)
  /-- List the standard grammar. -/
  | grammar

/-- What the program writes, and its exit code. -/
structure Output where
  code : UInt32
  out : String
  err : String

/-! ## Arguments -/

/-- The arguments of a check as they are collected. -/
structure Collected where
  expression : Option String
  schema : Option String
  data : Option String
  pretty : Bool
  parseOnly : Bool
  limit : Option Nat

/-- Nothing collected yet. -/
def Collected.empty : Collected := ⟨none, none, none, false, false, none⟩

/-- The options that take a value. -/
inductive ValueOption where
  | schema
  | data
  | limit

/-- Gives an option its value. -/
def Collected.set (collected : Collected) (value : String) : ValueOption → Option Collected
  | .schema => some { collected with schema := some value }
  | .data => some { collected with data := some value }
  | .limit => value.toNat?.map fun limit => { collected with limit := some limit }

/-- Takes the expression, which stands on its own. -/
def Collected.setExpression (collected : Collected) (expression : String) : Option Collected :=
  if collected.expression.isSome then none
  else some { collected with expression := some expression }

/-- What an argument is. -/
inductive Argument where
  | flag (collect : Collected → Collected)
  | takes (option : ValueOption)
  | gives (option : ValueOption) (value : String)
  | separator
  | expression (text : String)
  | unknown

/-- The option of a letter. -/
def shortOption? : Char → Option ValueOption
  | 's' => some .schema
  | 'd' => some .data
  | _ => none

/-- The option of a word. -/
def longOption? (word : String) : Option ValueOption :=
  if word = "--schema" then some .schema
  else if word = "--data" then some .data
  else if word = "--max-depth" then some .limit
  else none

/-- What a cluster of letters behind a dash is: flags, of which the last letter can be an option
with its value behind it. -/
def shortArgument (collect : Collected → Collected) : List Char → Argument
  | [] => .flag collect
  | 'p' :: rest => shortArgument (fun collected => { collect collected with pretty := true }) rest
  | 'v' :: rest => shortArgument collect rest
  | c :: rest =>
    match shortOption? c, rest with
    | some option, [] => .takes option
    | some option, '=' :: value => .gives option (String.ofList value)
    | some option, value => .gives option (String.ofList value)
    | none, _ => .unknown

/-- What a word behind two dashes is. -/
def longArgument (word : String) : Argument :=
  let name := String.ofList (word.toList.takeWhile (· != '='))
  match longOption? name, word.toList.dropWhile (· != '=') with
  | some option, [] => .takes option
  | some option, _ :: value => .gives option (String.ofList value)
  | none, _ =>
    if word = "--pretty" then .flag fun collected => { collected with pretty := true }
    else if word = "--syntax-only" then .flag fun collected => { collected with parseOnly := true }
    else if word = "--verbose" then .flag id
    else .unknown

/-- What an argument is. -/
def argument (text : String) : Argument :=
  match text.toList with
  | ['-', '-'] => .separator
  | '-' :: '-' :: _ => longArgument text
  | '-' :: c :: rest => shortArgument id (c :: rest)
  | _ => .expression text

/-- Collects the arguments of a check. -/
def collect (collected : Collected) : List String → Option Collected
  | [] => some collected
  | text :: rest =>
    match argument text with
    | .flag apply => collect (apply collected) rest
    | .takes option =>
      match rest with
      | value :: rest => (collected.set value option).bind (collect · rest)
      | [] => none
    | .gives option value => (collected.set value option).bind (collect · rest)
    | .separator =>
      rest.foldl (fun state text => state.bind (·.setExpression text)) (some collected)
    | .expression text => (collected.setExpression text).bind (collect · rest)
    | .unknown => none

/-- The command of collected arguments. -/
def Collected.command? (collected : Collected) : Option Command :=
  collected.expression.map fun expression =>
    .check ⟨expression, collected.schema, collected.data, collected.parseOnly, collected.limit⟩
      collected.pretty

/-- The command that arguments ask for. -/
def command? (arguments : List String) : Option Command :=
  match arguments.dropWhile fun text => text = "-v" || text = "-vv" || text = "--verbose" with
  | "check" :: rest => (collect .empty rest).bind Collected.command?
  | ["grammar"] => some .grammar
  | _ => none

/-! ## Commands -/

/-- Whether a command reads its data from the input. -/
def Command.readsInput : Command → Bool
  | .check options _ => options.data.isNone && !options.parseOnly
  | .grammar => false

/-- The command with the data that was read from the input. -/
def Command.withInput (input : String) : Command → Command
  | .check options pretty => .check { options with data := some input } pretty
  | .grammar => .grammar

/-- The output of a command that has no answer. -/
def failed (problem : Check.Problem) : Output :=
  ⟨1, "", (problem.diagnostic? defaultRadius).getD (problem.message ++ "\n")⟩

/-- The text of an answer. -/
def answerText (pretty : Bool) : Check.Answer → String
  | .parsed type => "Syntax is valid (result: " ++ type ++ ")\n"
  | .evaluated json => (if pretty then json.pretty else json.compact) ++ "\n"

/-- Runs a command. -/
def Command.run : Command → Output
  | .check options pretty =>
    match Check.run options with
    | .ok answer => ⟨0, answerText pretty answer, ""⟩
    | .error problem => failed problem
  | .grammar =>
    match Check.grammar with
    | .ok built => ⟨0, built.listing, ""⟩
    | .error problem => failed problem

/-- The output when the arguments ask for no command. -/
def usage : Output :=
  ⟨2, "", "usage: check EXPRESSION [--schema JSON] [--data JSON] [--pretty] [--syntax-only]" ++
    " [--max-depth N]\n       grammar\n"⟩

end Mixfix.CommandLine
