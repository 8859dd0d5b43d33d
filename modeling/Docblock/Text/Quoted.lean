import Docblock.Text.CombiningMark
import Docblock.Text.Unprintable

/-!
# Quoted text

Messages and listings show text between double quotes.  A quote, a backslash,
a zero character, a tab and the two line characters are written as a backslash
and a letter; an unprintable character and a combining mark are written as their
code point in hexadecimal; every other character stands for itself.
-/

namespace Docblock.Text

/-- The code point of a character between braces, behind `\u`. -/
def codePointEscape (char : Char) : List Char :=
  ['\\', 'u', '\x7b'] ++ Nat.toDigits 16 char.toNat ++ ['\x7d']

/-- One character of a quoted text. -/
def quotedChar (char : Char) : List Char :=
  if char = '\x22' then ['\\', '\x22']
  else if char = '\\' then ['\\', '\\']
  else if char = '\x00' then ['\\', '0']
  else if char = '\t' then ['\\', 't']
  else if char = '\r' then ['\\', 'r']
  else if char = '\n' then ['\\', 'n']
  else if ' ' ≤ char ∧ char ≤ '~' then [char]
  else if isCombiningMark char || isUnprintable char then codePointEscape char
  else [char]

/-- A text in double quotes. -/
def quoted (text : String) : String :=
  String.ofList (['\x22'] ++ text.toList.flatMap quotedChar ++ ['\x22'])

end Docblock.Text
