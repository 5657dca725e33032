import Mixfix.Unicode.Classes

/-!
# Quoted text

Text in double quotes, as trees, violations and listings show it. The quote, the backslash and the
common controls have escapes of two characters; every other character that would not show as itself
is written by its code point in lower-case hexadecimal.
-/

set_option autoImplicit false

namespace Mixfix.Text

/-- How a character is written between quotes. -/
def quotedChar (c : Char) : List Char :=
  if c = '"' then ['\\', '"']
  else if c = '\\' then ['\\', '\\']
  else if c = '\n' then ['\\', 'n']
  else if c = '\r' then ['\\', 'r']
  else if c = '\t' then ['\\', 't']
  else if c = '\x00' then ['\\', '0']
  else if Unicode.isEscaped c then
    ['\\', 'u', '\x7b'] ++ Nat.toDigits 16 c.toNat ++ ['\x7d']
  else [c]

/-- A text in double quotes. -/
def quoted (text : String) : String :=
  String.ofList ('"' :: text.toList.flatMap quotedChar ++ ['"'])

end Mixfix.Text
