import Mixfix.Lexeme.Basic
import Mixfix.Text.Numeral
import Mixfix.Value

/-!
# Number lexemes

A number is an optional minus, digits, an optional fraction and an optional exponent. A point or an
exponent mark without digits behind it does not belong to the number. Without a fraction and an
exponent the number is an integer, as long as it fits 64 bits; every other number is the
floating-point number nearest to it.
-/

set_option autoImplicit false

namespace Mixfix.Lexeme

/-- The parts of a number. -/
structure NumberParts where
  negative : Bool
  whole : List Char
  fraction : List Char
  /-- Whether the exponent is negative, and its digits. -/
  exponent : Option (Bool × List Char)

namespace NumberParts

/-- The value of a number. -/
def value (parts : NumberParts) : Value :=
  match parts.fraction, parts.exponent with
  | [], none =>
    match Numeral.toInt64? (withSign parts.negative (Numeral.value parts.whole)) with
    | some n => .integer n
    | none => .float (Numeral.nearest parts.negative parts.whole [] 0)
  | fraction, none => .float (Numeral.nearest parts.negative parts.whole fraction 0)
  | fraction, some (negative, digits) =>
    .float (Numeral.nearest parts.negative parts.whole fraction
      (withSign negative (Numeral.value digits)))

end NumberParts

/-- Divides a text after its leading digits. -/
def splitDigits (text : List Char) : List Char × List Char :=
  (text.takeWhile Unicode.isAsciiDigit, text.dropWhile Unicode.isAsciiDigit)

/-- Dividing a text after its digits loses nothing. -/
theorem splitDigits_append (text : List Char) :
    (splitDigits text).1 ++ (splitDigits text).2 = text :=
  List.takeWhile_append_dropWhile

/-- The first part are digits. -/
theorem isAsciiDigit_of_mem_splitDigits {text : List Char} {c : Char}
    (mem : c ∈ (splitDigits text).1) : Unicode.isAsciiDigit c = true := by
  induction text with
  | nil => simp [splitDigits] at mem
  | cons head rest ih =>
    simp only [splitDigits, List.takeWhile_cons] at mem ih
    split at mem
    · next digit =>
      cases List.mem_cons.mp mem with
      | inl same => exact same ▸ digit
      | inr later => exact ih later
    · simp at mem

/-- Divides a text after a leading minus. -/
def splitMinus : List Char → Bool × List Char
  | '-' :: rest => (true, rest)
  | text => (false, text)

/-- Divides a text after a leading fraction, a point with digits behind it. -/
def splitFraction : List Char → List Char × List Char
  | '.' :: rest =>
    match splitDigits rest with
    | ([], _) => ([], '.' :: rest)
    | (digits, behind) => (digits, behind)
  | text => ([], text)

/-- Divides a text after a leading sign of an exponent. -/
def splitSign : List Char → Bool × List Char
  | '+' :: rest => (false, rest)
  | '-' :: rest => (true, rest)
  | text => (false, text)

/-- Divides a text after a leading exponent, a mark with an optional sign and digits behind it. -/
def splitExponent : List Char → Option (Bool × List Char) × List Char
  | [] => (none, [])
  | mark :: rest =>
    if mark = 'e' || mark = 'E' then
      let (negative, unsigned) := splitSign rest
      match splitDigits unsigned with
      | ([], _) => (none, mark :: rest)
      | (digits, behind) => (some (negative, digits), behind)
    else (none, mark :: rest)

/-- Divides a text after the longest number it starts with. -/
def splitNumber (text : List Char) : Option (NumberParts × List Char) :=
  let (negative, unsigned) := splitMinus text
  match splitDigits unsigned with
  | ([], _) => none
  | (whole, afterWhole) =>
    let (fraction, afterFraction) := splitFraction afterWhole
    let (exponent, behind) := splitExponent afterFraction
    some (⟨negative, whole, fraction, exponent⟩, behind)

/-- The number ahead, after blanks. -/
def number? (cursor : Cursor) : Option (Lexeme Value) :=
  let cursor := cursor.skipBlanks
  match splitNumber cursor.rest with
  | some (parts, behind) => some (ahead cursor (cursor.rest.length - behind.length) parts.value)
  | none => none

end Mixfix.Lexeme
