import Mixfix.Lexeme.Basic
import Mixfix.Text.Numeral

/-!
# Quoted strings

A string stands between two single or two double quotes. Inside, a backslash starts an escape: a
letter for a control, the quotes, the backslash and the slash for themselves, or `u` with four
hexadecimal digits for a code unit of UTF-16, where a leading surrogate must be followed by the
escape of a trailing one.

A text that starts with a quote but is no such string has a fault: it may lack its closing quote, or
it may contain a malformed escape, whichever the scan meets first.
-/

set_option autoImplicit false

namespace Mixfix

/-- What is wrong with a text that starts like a string. -/
inductive QuotationFault where
  /-- The closing quote is missing. -/
  | unterminated (quote : Char)
  /-- A backslash stands before a character that names no escape. -/
  | unknownEscape (c : Char)
  /-- Four hexadecimal digits are missing. -/
  | shortEscape
  /-- A surrogate stands alone. -/
  | unpairedSurrogate
deriving DecidableEq

namespace QuotationFault

/-- The message of a fault. -/
def message : QuotationFault → String
  | .unterminated quote => "unterminated string: missing closing " ++ quote.toString
  | .unknownEscape c => "invalid escape sequence `\\" ++ c.toString ++ "`"
  | .shortEscape => "`\\u` must be followed by four hex digits"
  | .unpairedSurrogate => "invalid unicode escape: unpaired surrogate"

end QuotationFault

namespace Lexeme

/-! ## Escapes -/

/-- What a backslash is followed by. -/
inductive Escape where
  /-- The escape of a character, and its count of characters behind the backslash. -/
  | decoded (c : Char) (length : Nat)
  /-- A malformed escape, and the count of characters behind the backslash that were understood. -/
  | malformed (fault : QuotationFault) (length : Nat)
  /-- Nothing. -/
  | cut

/-- The character that a letter or a mark behind a backslash stands for. -/
def simpleEscape? : Char → Option Char
  | 'n' => some '\n'
  | 't' => some '\t'
  | 'r' => some '\r'
  | '\\' => some '\\'
  | '"' => some '"'
  | '\'' => some '\''
  | '/' => some '/'
  | _ => none

/-- The code unit of four leading hexadecimal digits. -/
def codeUnit? (text : List Char) : Option Nat :=
  let digits := text.take 4
  if digits.length = 4 && digits.all Unicode.isHexDigit then some (Numeral.valueIn 16 digits)
  else none

/-- Whether a code unit is a leading surrogate. -/
def isLeading (unit : Nat) : Bool := 0xD800 ≤ unit && unit < 0xDC00

/-- Whether a code unit is a trailing surrogate. -/
def isTrailing (unit : Nat) : Bool := 0xDC00 ≤ unit && unit < 0xE000

/-- The code point of two surrogates. -/
def pairedCode (leading trailing : Nat) : Nat :=
  0x10000 + (leading - 0xD800) * 0x400 + (trailing - 0xDC00)

/-- The escape of a code point by its code units; the text starts behind the `u`. -/
def unicodeEscape (text : List Char) : Escape :=
  match codeUnit? text with
  | none => .malformed .shortEscape 1
  | some unit =>
    if isLeading unit then
      match text.drop 4 with
      | '\\' :: 'u' :: second =>
        match codeUnit? second with
        | none => .malformed .shortEscape 7
        | some trailing =>
          if isTrailing trailing then .decoded (Char.ofNat (pairedCode unit trailing)) 11
          else .malformed .unpairedSurrogate 11
      | _ => .malformed .unpairedSurrogate 5
    else if isTrailing unit then .malformed .unpairedSurrogate 5
    else .decoded (Char.ofNat unit) 5

/-- The escape behind a backslash. -/
def escape : List Char → Escape
  | [] => .cut
  | c :: rest =>
    match simpleEscape? c with
    | some decoded => .decoded decoded 1
    | none => if c = 'u' then unicodeEscape rest else .malformed (.unknownEscape c) 0

/-! ## Strings -/

/-- How the scan of a string ends; places are counts of characters from the opening quote. -/
inductive Scan where
  /-- The closing quote was found; the string has this text, and this many characters follow its
  opening quote. -/
  | closed (text : List Char) (length : Nat)
  /-- The fault at a place, and the place where the scan stopped. -/
  | faulty (fault : QuotationFault) (place stop : Nat)

/-- Puts a character before the text of a string. -/
def Scan.cons (c : Char) : Scan → Scan
  | .closed text length => .closed (c :: text) length
  | .faulty fault place stop => .faulty fault place stop

/-- Scans the characters of a string from a place on. The next `skipped` characters belong to an
escape that is already decoded. -/
def scan (quote : Char) (place skipped : Nat) : List Char → Scan
  | [] => .faulty (.unterminated quote) 0 place
  | c :: rest =>
    match skipped with
    | skipped + 1 => scan quote (place + 1) skipped rest
    | 0 =>
      if c = quote then .closed [] place
      else if c = '\\' then
        match escape rest with
        | .decoded decoded length => (scan quote (place + 1) length rest).cons decoded
        | .malformed fault length => .faulty fault place (place + 1 + length)
        | .cut => .faulty (.unterminated quote) 0 (place + 1)
      else (scan quote (place + 1) 0 rest).cons c

/-- A fault in a string: where it is, and where reading stopped. -/
structure Misquotation where
  fault : QuotationFault
  /-- The byte offset of the fault. -/
  offset : Nat
  /-- The cursor where reading stopped. -/
  stop : Cursor

/-- The string ahead, after blanks, if a quote stands there. -/
def string? (cursor : Cursor) : Except Misquotation (Option (Lexeme String)) :=
  let cursor := cursor.skipBlanks
  match cursor.rest with
  | [] => .ok none
  | quote :: rest =>
    if quote = '"' || quote = '\'' then
      match scan quote 1 0 rest with
      | .closed text place => .ok (some (ahead cursor (place + 1) (String.ofList text)))
      | .faulty fault place stop =>
        .error ⟨fault, (cursor.advance place).offset, cursor.advance stop⟩
    else .ok none

end Lexeme

end Mixfix
