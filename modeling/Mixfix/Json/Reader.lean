import Mixfix.Json.Number

/-!
# Reading JSON

A text is read as exactly one JSON value with blanks around it. Arrays and objects can be nested 127
deep; of several fields with the same name the last one counts. A text that is not JSON gives
nothing: what is wrong with it is of no concern here.
-/

set_option autoImplicit false

namespace Mixfix.Json

/-- The blanks of JSON. -/
def isBlank (c : Char) : Bool :=
  c == ' ' || c == '\n' || c == '\t' || c == '\r'

/-- The text behind leading blanks. -/
def skipBlanks (text : List Char) : List Char := text.dropWhile isBlank

/-! ## Strings -/

/-- The code unit of four leading hexadecimal digits. -/
def codeUnit? (text : List Char) : Option Nat :=
  let digits := text.take 4
  if digits.length = 4 && digits.all Unicode.isHexDigit then some (Numeral.valueIn 16 digits)
  else none

/-- The character that a letter or a mark behind a backslash stands for. -/
def simpleEscape? : Char → Option Char
  | '"' => some '"'
  | '\\' => some '\\'
  | '/' => some '/'
  | 'b' => some '\x08'
  | 'f' => some '\x0c'
  | 'n' => some '\n'
  | 'r' => some '\r'
  | 't' => some '\t'
  | _ => none

/-- The character of an escape by code units, and its count of characters behind the `u`. -/
def unicodeEscape? (text : List Char) : Option (Char × Nat) := do
  let unit ← codeUnit? text
  if 0xD800 ≤ unit && unit < 0xDC00 then
    match text.drop 4 with
    | '\\' :: 'u' :: second =>
      let trailing ← codeUnit? second
      if 0xDC00 ≤ trailing && trailing < 0xE000 then
        some (Char.ofNat (0x10000 + (unit - 0xD800) * 0x400 + (trailing - 0xDC00)), 10)
      else none
    | _ => none
  else if 0xDC00 ≤ unit && unit < 0xE000 then none
  else some (Char.ofNat unit, 4)

/-- The character of the escape behind a backslash, and its count of characters. -/
def escape? : List Char → Option (Char × Nat)
  | [] => none
  | c :: rest =>
    match simpleEscape? c with
    | some decoded => some (decoded, 1)
    | none =>
      if c = 'u' then (unicodeEscape? rest).map fun (decoded, count) => (decoded, count + 1)
      else none

/-- Reads a string behind its opening quote. The next `skipped` characters belong to an escape that
is already decoded. -/
def readString (skipped : Nat) : List Char → Option (List Char × List Char)
  | [] => none
  | c :: rest =>
    match skipped with
    | skipped + 1 => readString skipped rest
    | 0 =>
      if c = '"' then some ([], rest)
      else if c = '\\' then
        match escape? rest with
        | some (decoded, count) =>
          (readString count rest).map fun (text, behind) => (decoded :: text, behind)
        | none => none
      else if c.toNat < 0x20 then none
      else (readString 0 rest).map fun (text, behind) => (c :: text, behind)

/-! ## Arrays and objects -/

/-- What reading a value gives: the value and the text behind it. -/
abbrev Reader := List Char → Option (Json × List Char)

/-- Reads the items of an array, from the first one on. -/
def readItems (value : Reader) : Nat → List Char → Option (List Json × List Char)
  | 0, _ => none
  | steps + 1, text => do
    let (item, behind) ← value text
    match skipBlanks behind with
    | ',' :: rest =>
      let (items, behind) ← readItems value steps rest
      some (item :: items, behind)
    | ']' :: rest => some ([item], rest)
    | _ => none

/-- Reads a field of an object: its name, a colon and its value. -/
def readField (value : Reader) (text : List Char) : Option ((String × Json) × List Char) :=
  match skipBlanks text with
  | '"' :: rest => do
    let (name, behind) ← readString 0 rest
    match skipBlanks behind with
    | ':' :: rest =>
      let (entry, behind) ← value rest
      some ((String.ofList name, entry), behind)
    | _ => none
  | _ => none

/-- Reads the fields of an object, from the first one on. -/
def readFields (value : Reader) : Nat → List Char → Option (List (String × Json) × List Char)
  | 0, _ => none
  | steps + 1, text => do
    let (field, behind) ← readField value text
    match skipBlanks behind with
    | ',' :: rest =>
      let (fields, behind) ← readFields value steps rest
      some (field :: fields, behind)
    | '\x7d' :: rest => some ([field], rest)
    | _ => none

/-- Reads what stands between brackets or braces, given how values in it are read. -/
def readContainer (value : Reader) : Reader
  | '[' :: text =>
    match skipBlanks text with
    | ']' :: rest => some (.array [], rest)
    | text => (readItems value text.length text).map fun (items, behind) => (.array items, behind)
  | '\x7b' :: text =>
    match skipBlanks text with
    | '\x7d' :: rest => some (.object [], rest)
    | text =>
      (readFields value text.length text).map fun (fields, behind) =>
        (.object (Dict.ofEntries fields), behind)
  | _ => none

/-! ## Values -/

/-- Reads a word, a number or a string. -/
def readScalar (text : List Char) : Option (Json × List Char) :=
  match text with
  | 'n' :: 'u' :: 'l' :: 'l' :: rest => some (.null, rest)
  | 't' :: 'r' :: 'u' :: 'e' :: rest => some (.boolean true, rest)
  | 'f' :: 'a' :: 'l' :: 's' :: 'e' :: rest => some (.boolean false, rest)
  | '"' :: rest =>
    (readString 0 rest).map fun (text, behind) => (.string (String.ofList text), behind)
  | text => readNumber text

/-- Reads a value in which arrays and objects are nested up to a depth. -/
def readValue : Nat → Reader
  | 0 => fun text => readScalar (skipBlanks text)
  | depth + 1 => fun text =>
    match skipBlanks text with
    | '[' :: rest => readContainer (readValue depth) ('[' :: rest)
    | '\x7b' :: rest => readContainer (readValue depth) ('\x7b' :: rest)
    | text => readScalar text

/-- How deep arrays and objects can be nested. -/
def maxNesting : Nat := 127

/-- The JSON value that a text is. -/
def parse? (text : String) : Option Json :=
  match readValue maxNesting text.toList with
  | some (json, behind) => if (skipBlanks behind).isEmpty then some json else none
  | none => none

end Mixfix.Json
