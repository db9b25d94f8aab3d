import StackCode.Text.Printable
import StackCode.Text.Extender

/-!
# Quoted text

A text between double quotes.  The quote, the backslash and four control
characters are written with a backslash and a letter, and every other
character that would not show on its own is written by its code point in
lower-case hexadecimal.
-/

namespace StackCode.Text

/-- The code point of a character between braces, in lower-case hexadecimal. -/
def codePointEscape (c : Char) : List Char :=
  ['\\', 'u', '\x7b'] ++ Nat.toDigits 16 c.toNat ++ ['\x7d']

def escape (c : Char) : List Char :=
  if c = '\x00' then ['\\', '0']
  else if c = '\t' then ['\\', 't']
  else if c = '\r' then ['\\', 'r']
  else if c = '\n' then ['\\', 'n']
  else if c = '"' then ['\\', '"']
  else if c = '\\' then ['\\', '\\']
  else if isPrintable c && !isExtender c then [c]
  else codePointEscape c

/-- The text between double quotes, with what would not show escaped. -/
def quoted (text : String) : String :=
  String.ofList ('"' :: text.toList.flatMap escape ++ ['"'])

end StackCode.Text
