import Docblock.Text.Quoted
import Docblock.Token.Kind

/-!
# Syntax errors

A syntax error names the token at which reading stopped, where that token
stands, and what would have been accepted in its place.
-/

namespace Docblock

/-- What would have been accepted: a kind of token, possibly with a given text. -/
structure Expected where
  kind : TokenKind
  value : Option String := none
  deriving DecidableEq, Repr

namespace Expected

/-- The wording in messages. -/
def describe (expected : Expected) : String :=
  match expected.value with
  | none => expected.kind.displayName
  | some value => expected.kind.displayName ++ " (" ++ Text.quoted value ++ ")"

end Expected

/-- Reading stopped at a token; its place is given as a byte offset and a line. -/
structure SyntaxError where
  foundValue : String
  foundKind : TokenKind
  offset : Nat
  line : UInt32
  expected : Expected
  deriving DecidableEq, Repr

namespace SyntaxError

/-- The message of an error. -/
def message (error : SyntaxError) : String :=
  "unexpected token " ++ Text.quoted error.foundValue ++
    " (" ++ error.foundKind.displayName ++
    ") at offset " ++ toString error.offset ++
    " on line " ++ toString error.line.toNat ++
    ", expected " ++ error.expected.describe

end SyntaxError

end Docblock
