import Mixfix.Unicode.Alphabetic
import Mixfix.Unicode.Numeric
import Mixfix.Unicode.DecimalDigit
import Mixfix.Unicode.Extending
import Mixfix.Unicode.Unprintable

/-!
# Character classes

The classes of characters that the lexical rules and the quoting of text are written with. Each is
decided by a direct test on ASCII and by the table of its Unicode property beyond, so facts about
ASCII characters never touch a table. The tables follow Unicode 17, except for the decimal digits,
which follow Unicode 16.
-/

set_option autoImplicit false

namespace Mixfix.Unicode

/-- Whether a character is a letter of ASCII. -/
def isAsciiLetter (c : Char) : Bool :=
  ('a' ≤ c && c ≤ 'z') || ('A' ≤ c && c ≤ 'Z')

/-- Whether a character is a digit of ASCII. -/
def isAsciiDigit (c : Char) : Bool :=
  '0' ≤ c && c ≤ '9'

/-- Whether a character is a hexadecimal digit of ASCII, in either case. -/
def isHexDigit (c : Char) : Bool :=
  isAsciiDigit c || ('a' ≤ c && c ≤ 'f') || ('A' ≤ c && c ≤ 'F')

/-- The property Alphabetic. -/
def isAlphabetic (c : Char) : Bool :=
  if c.toNat < 0x80 then isAsciiLetter c else alphabeticRanges.contains c.toNat

/-- The general categories Nd, Nl and No. -/
def isNumeric (c : Char) : Bool :=
  if c.toNat < 0x80 then isAsciiDigit c else numericRanges.contains c.toNat

/-- The general category Nd of Unicode 16. -/
def isDecimalDigit (c : Char) : Bool :=
  if c.toNat < 0x80 then isAsciiDigit c else decimalDigitRanges.contains c.toNat

/-- The ranges of the property White_Space. -/
def whiteSpaceRanges : Ranges :=
  [(0x9, 0xD), (0x20, 0x20), (0x85, 0x85), (0xA0, 0xA0), (0x1680, 0x1680), (0x2000, 0x200A),
   (0x2028, 0x2029), (0x202F, 0x202F), (0x205F, 0x205F), (0x3000, 0x3000)]

/-- The property White_Space. -/
def isWhiteSpace (c : Char) : Bool :=
  whiteSpaceRanges.contains c.toNat

/-- The Hangul fillers: the letters with the property Default_Ignorable_Code_Point, which keep a
place free and show nothing. -/
def fillerRanges : Ranges :=
  [(0x115F, 0x1160), (0x3164, 0x3164), (0xFFA0, 0xFFA0)]

/-- Whether quoted text shows a character by its code point: it extends the character before it, it
has no printed form, or it is a letter that shows nothing. -/
def isEscaped (c : Char) : Bool :=
  if c.toNat < 0x80 then c.toNat < 0x20 || c.toNat == 0x7F
  else extendingRanges.contains c.toNat || unprintableRanges.contains c.toNat ||
    fillerRanges.contains c.toNat

end Mixfix.Unicode
