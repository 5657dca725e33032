import Mixfix.Descriptor.Basic
import Mixfix.Unicode.Classes

/-!
# Shapes of strings

The texts that the subtypes of strings allow. Each shape is a test on the characters of the whole
text.
-/

set_option autoImplicit false

namespace Mixfix.Shape

/-- Whether each of a list of tests holds for the character in its place and none is left over. -/
def each : List (Char → Bool) → List Char → Bool
  | [], [] => true
  | test :: tests, c :: text => test c && each tests text
  | _, _ => false

/-- Text on both sides of a single at sign, without white space, where the text behind it has a
point that is neither its first nor its last character. -/
def isEmail (text : List Char) : Bool :=
  let mailbox := text.takeWhile (· != '@')
  match text.drop mailbox.length with
  | [] => false
  | _ :: domain =>
    !mailbox.isEmpty && !domain.contains '@' && !text.any Unicode.isWhiteSpace &&
      (domain.drop 1).dropLast.contains '.'

/-- The characters of a scheme behind its first letter. -/
def isSchemeChar (c : Char) : Bool :=
  Unicode.isAsciiLetter c || Unicode.isAsciiDigit c || c == '+' || c == '.' || c == '-'

/-- A scheme, a colon, two slashes, and at least one character of a host, without white space. -/
def isUrl (text : List Char) : Bool :=
  text.head?.any Unicode.isAsciiLetter &&
    match text.dropWhile isSchemeChar with
    | ':' :: '/' :: '/' :: first :: rest =>
      first != '/' && first != '?' && first != '#' &&
        !(first :: rest).any Unicode.isWhiteSpace
    | _ => false

/-- Hexadecimal digits in groups of eight, four, four, four and twelve, joined by dashes. -/
def isUuid (text : List Char) : Bool :=
  let group := fun count => List.replicate count Unicode.isHexDigit
  let dash : List (Char → Bool) := [(· == '-')]
  each (group 8 ++ dash ++ group 4 ++ dash ++ group 4 ++ dash ++ group 4 ++ dash ++ group 12) text

/-- Whether two characters are a month from `01` to `12`. -/
def isMonth (tens ones : Char) : Bool :=
  (tens == '0' && '1' ≤ ones && ones ≤ '9') || (tens == '1' && '0' ≤ ones && ones ≤ '2')

/-- Whether two characters are a day from `01` to `31`; behind a one or a two any decimal digit
stands. -/
def isDay (tens ones : Char) : Bool :=
  (tens == '0' && '1' ≤ ones && ones ≤ '9') ||
    ((tens == '1' || tens == '2') && Unicode.isDecimalDigit ones) ||
    (tens == '3' && (ones == '0' || ones == '1'))

/-- A year of four decimal digits, a month and a day, joined by dashes. -/
def isDate : List Char → Bool
  | [y₁, y₂, y₃, y₄, dash, m₁, m₂, dash', d₁, d₂] =>
    [y₁, y₂, y₃, y₄].all Unicode.isDecimalDigit && dash == '-' && isMonth m₁ m₂ && dash' == '-' &&
      isDay d₁ d₂
  | _ => false

/-- Whether a text has the shape of a subtype. Numbers have no shape. -/
def fits (subtype : Subtype) (text : List Char) : Bool :=
  match subtype with
  | .integer => true
  | .email => isEmail text
  | .url => isUrl text
  | .uuid => isUuid text
  | .date => isDate text
  | .alpha => text.all Unicode.isAsciiLetter
  | .alphanumeric => text.all fun c => Unicode.isAsciiLetter c || Unicode.isAsciiDigit c

end Mixfix.Shape
