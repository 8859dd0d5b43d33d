import Docblock.Token
import Docblock.Token.Lexeme

/-!
# Cutting a text into tokens

Scanning never fails: lexeme after lexeme is cut off the text until nothing is
left, and the list is sealed.  Only a line break moves the line count.
-/

namespace Docblock

/-- Cuts off at most `fuel` lexemes; the first one starts on `line`. -/
def scanWithin : Nat → UInt32 → List Char → List Token
  | 0, _, _ => []
  | _ + 1, _, [] => []
  | fuel + 1, line, char :: rest =>
      let lexeme := Lexeme.first char rest
      let token : Token :=
        ⟨lexeme.kind, String.ofList (char :: rest.take lexeme.extra), line⟩
      token :: scanWithin fuel token.nextLine (rest.drop lexeme.extra)

/-- The tokens of a list of characters, without the end of the input.  Every
lexeme has at least one character, so there are no more lexemes than characters. -/
def scan (text : List Char) : List Token :=
  scanWithin text.length 1 text

/-- The sealed list of the tokens of a text. -/
def tokenize (source : String) : List Token :=
  TokenList.sealed (scan source.toList)

end Docblock
