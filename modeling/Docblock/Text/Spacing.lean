/-!
# Spacing and letter case

Three different sets of characters count as spacing.  The scanner ends a run
of unrecognised text at a *space character*, the end of a captured line is
trimmed of *blanks*, and the raw text of a type that could not be read is
trimmed of *white space* in the sense of Unicode.  Letter case is compared for
the ASCII letters only.  In printed forms one space stands between two parts.
-/

namespace Docblock.Text

/-- A space or a tab. -/
def isBlank (char : Char) : Bool :=
  char = ' ' || char = '\t'

/-- ASCII white space or a vertical tab. -/
def isSpace (char : Char) : Bool :=
  char = ' ' || (0x09 ≤ char.toNat && char.toNat ≤ 0x0D)

/-- White space in the sense of the Unicode property White_Space. -/
def isWhiteSpace (char : Char) : Bool :=
  let code := char.toNat
  (0x09 ≤ code && code ≤ 0x0D) || code = 0x20 || code = 0x85 || code = 0xA0 ||
    code = 0x1680 || (0x2000 ≤ code && code ≤ 0x200A) || code = 0x2028 ||
    code = 0x2029 || code = 0x202F || code = 0x205F || code = 0x3000

/-- The list without its longest tail of characters that satisfy `drop`. -/
def trimEndChars (drop : Char → Bool) (chars : List Char) : List Char :=
  (chars.reverse.dropWhile drop).reverse

/-- The text without its longest tail of characters that satisfy `drop`. -/
def trimEnd (drop : Char → Bool) (text : String) : String :=
  String.ofList (trimEndChars drop text.toList)

/-- The text with its ASCII letters in lower case. -/
def lowercase (text : String) : String :=
  String.ofList (text.toList.map Char.toLower)

/-- Whether two texts agree up to the case of their ASCII letters. -/
def equalIgnoringCase (first second : String) : Bool :=
  lowercase first = lowercase second

/-- The parts that are not empty, with one space between two neighbours. -/
def spaced (parts : List String) : String :=
  String.intercalate " " (parts.filter fun part => !part.isEmpty)

end Docblock.Text
