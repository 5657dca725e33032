import Mixfix.Lexeme.Basic
import Mixfix.Value

/-!
# Words and tokens

Identifiers, the segments of dotted paths, keywords, and the exact texts that a grammar registers.
A word never stops inside a run of word characters, and of several registered texts that stand at
the same place the longest one counts.
-/

set_option autoImplicit false

namespace Mixfix

/-- The words that stand for fixed values. -/
inductive Keyword where
  | null
  | true
  | false
  | undefined
deriving DecidableEq

namespace Keyword

/-- Every keyword, in the order in which they are tried. -/
def all : List Keyword := [.null, .true, .false, .undefined]

/-- How a keyword is written. -/
def text : Keyword → String
  | .null => "null"
  | .true => "true"
  | .false => "false"
  | .undefined => "undefined"

/-- What a keyword stands for. -/
def value : Keyword → Value
  | .null => .null
  | .true => .boolean Bool.true
  | .false => .boolean Bool.false
  | .undefined => .undefined

end Keyword

namespace Lexeme

/-- The characters of words: letters and numbers of all scripts, and the underscore. -/
def isWordChar (c : Char) : Bool :=
  Unicode.isAlphabetic c || Unicode.isNumeric c || c == '_'

/-! ## Identifiers -/

/-- The identifier ahead, after blanks: a letter and the word characters behind it. -/
def identifier? (cursor : Cursor) : Option (Lexeme String) :=
  let cursor := cursor.skipBlanks
  match cursor.rest with
  | [] => none
  | c :: _ =>
    if Unicode.isAlphabetic c then
      let word := cursor.rest.takeWhile isWordChar
      some (ahead cursor word.length (String.ofList word))
    else none

/-- The segment of a dotted path directly ahead: a point, a letter and the word characters behind
it. -/
def segment? (cursor : Cursor) : Option (Lexeme String) :=
  match cursor.rest with
  | '.' :: c :: rest =>
    if Unicode.isAlphabetic c then
      let word := (c :: rest).takeWhile isWordChar
      some (ahead cursor (word.length + 1) (String.ofList word))
    else none
  | _ => none

/-! ## Exact texts -/

/-- Whether a text that is behind a cursor may end there: a text that ends in a word character must
not run into another one. -/
def endsAt (text behind : List Char) : Bool :=
  !(text.getLast?.any isWordChar && behind.head?.any isWordChar)

/-- Whether a text stands directly ahead as a word or mark of its own. -/
def standsAt (text : List Char) (cursor : Cursor) : Bool :=
  text.isPrefixOf cursor.rest && endsAt text (cursor.rest.drop text.length)

/-- The keyword ahead, after blanks. -/
def keyword? (keyword : Keyword) (cursor : Cursor) : Option (Lexeme Keyword) :=
  let cursor := cursor.skipBlanks
  let text := keyword.text.toList
  if standsAt text cursor then some (ahead cursor text.length keyword) else none

/-- Whether one of the registered texts extends a text and stands ahead as well. -/
def isShadowed (tokens : List String) (text : List Char) (cursor : Cursor) : Bool :=
  tokens.any fun token =>
    let longer := token.toList
    text.length < longer.length && text.isPrefixOf longer && standsAt longer cursor

/-- The exact text ahead, after blanks, unless a longer registered text stands there. -/
def token? (tokens : List String) (text : String) (cursor : Cursor) : Option (Lexeme String) :=
  let cursor := cursor.skipBlanks
  let wanted := text.toList
  if standsAt wanted cursor && !isShadowed tokens wanted cursor then
    some (ahead cursor wanted.length text)
  else none

end Lexeme

end Mixfix
