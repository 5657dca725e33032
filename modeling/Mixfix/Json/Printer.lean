import Mixfix.Binary64.Text
import Mixfix.Json.Basic

/-!
# Writing JSON

JSON is written on one line without blanks, or over several lines with an indentation of two spaces
a level, where empty arrays and objects stay on their line. Strings escape quotes, backslashes and
controls only.
-/

set_option autoImplicit false

namespace Mixfix.Json

/-- A code unit in four hexadecimal digits. -/
def codeUnitText (n : Nat) : List Char :=
  let digits := Nat.toDigits 16 n
  List.replicate (4 - digits.length) '0' ++ digits

/-- How a character is written in a string. -/
def stringChar (c : Char) : List Char :=
  if c = '"' then ['\\', '"']
  else if c = '\\' then ['\\', '\\']
  else if c = '\x08' then ['\\', 'b']
  else if c = '\x0c' then ['\\', 'f']
  else if c = '\n' then ['\\', 'n']
  else if c = '\r' then ['\\', 'r']
  else if c = '\t' then ['\\', 't']
  else if c.toNat < 0x20 then '\\' :: 'u' :: codeUnitText c.toNat
  else [c]

/-- A string in quotes. -/
def stringText (text : String) : String :=
  String.ofList ('"' :: text.toList.flatMap stringChar ++ ['"'])

/-- The text of a value that contains no others. -/
def scalarText : Json → String
  | .boolean b => if b then "true" else "false"
  | .integer n => toString n
  | .float x => if x.isFinite then x.text .json else "null"
  | .string s => stringText s
  | _ => "null"

mutual
/-- The text of a value on one line. -/
def compact : Json → String
  | .array items => "[" ++ ",".intercalate (compactItems items) ++ "]"
  | .object fields => "\x7b" ++ ",".intercalate (compactFields fields) ++ "\x7d"
  | .null => scalarText .null
  | .boolean b => scalarText (.boolean b)
  | .integer n => scalarText (.integer n)
  | .float x => scalarText (.float x)
  | .string s => scalarText (.string s)
/-- The texts of items. -/
def compactItems : List Json → List String
  | [] => []
  | item :: items => compact item :: compactItems items
/-- The texts of fields. -/
def compactFields : List (String × Json) → List String
  | [] => []
  | (name, value) :: fields => (stringText name ++ ":" ++ compact value) :: compactFields fields
end

/-- A line break with the indentation of a level. -/
def lineBreak (level : Nat) : String :=
  String.ofList ('\n' :: List.replicate (2 * level) ' ')

/-- Texts between brackets, each on a line of its own; without texts the brackets stay together. -/
def block (level : Nat) (opening closing : String) (texts : List String) : String :=
  if texts.isEmpty then opening ++ closing
  else
    opening ++ lineBreak (level + 1) ++ ("," ++ lineBreak (level + 1)).intercalate texts ++
      lineBreak level ++ closing

mutual
/-- The text of a value over several lines, from a level of indentation on. -/
def indented (level : Nat) : Json → String
  | .array items => block level "[" "]" (indentedItems (level + 1) items)
  | .object fields => block level "\x7b" "\x7d" (indentedFields (level + 1) fields)
  | .null => scalarText .null
  | .boolean b => scalarText (.boolean b)
  | .integer n => scalarText (.integer n)
  | .float x => scalarText (.float x)
  | .string s => scalarText (.string s)
/-- The texts of items. -/
def indentedItems (level : Nat) : List Json → List String
  | [] => []
  | item :: items => indented level item :: indentedItems level items
/-- The texts of fields. -/
def indentedFields (level : Nat) : List (String × Json) → List String
  | [] => []
  | (name, value) :: fields =>
    (stringText name ++ ": " ++ indented level value) :: indentedFields level fields
end

/-- The text of a value over several lines. -/
def pretty (json : Json) : String := json.indented 0

end Mixfix.Json
